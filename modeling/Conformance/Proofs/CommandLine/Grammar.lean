import Mathlib
import Conformance.CommandLine.Scan

set_option autoImplicit false

/-! # The grammar of command lines

What a command line can say, without a reader: a list of items (`CommandLine.Item`), each of them
spelled by one word or two (`Item.Spelled`), up to a lone `--`, behind which every word is a path
(`Derives`). What the items say all together is read off them (`ReadOff`): how often an option may
be given, what its value has to be and what holds if it is not given.

Items can also be taken one after the other (`Item.Takes`), each adding something to what was found
before. The two agree (`takesAll_iff`): what a list of items adds to an option depends on the values
of that option only, what it adds to the paths on the paths only.
-/

namespace Conformance

/-- The word that names an option. -/
def ValueOption.word : ValueOption → String
  | .timeout => "timeout"
  | .extension => "extension"
  | .color => "color"

/-- The word that spells a colour choice. -/
def ColorChoice.word : ColorChoice → String
  | .auto => "auto"
  | .always => "always"
  | .never => "never"

namespace CommandLine

/-! ## Items and their spellings -/

/-- One thing that is said on a command line. -/
inductive Item where
  | json
  | option (o : ValueOption) (text : String)
  | path (word : Bytes)
  deriving DecidableEq, Repr

/-- A word that does not start with a hyphen, or is a lone one. -/
def Plain (word : Bytes) : Prop := word.head? = some Scan.hyphen → word = [Scan.hyphen]

instance (word : Bytes) : Decidable (Plain word) :=
  inferInstanceAs (Decidable (word.head? = some Scan.hyphen → word = [Scan.hyphen]))

/-- **The spellings of an item.** A value is attached to its option, or it is a plain word of its
own. -/
inductive Item.Spelled : Item → List Bytes → Prop
  | json : Spelled .json [Utf8.encode "--json"]
  | attached (o : ValueOption) (text : String) :
      Spelled (.option o text) [Utf8.encode ("--" ++ o.word ++ "=" ++ text)]
  | separate (o : ValueOption) {text : String} : Plain (Utf8.encode text) →
      Spelled (.option o text) [Utf8.encode ("--" ++ o.word), Utf8.encode text]
  | path {word : Bytes} : Plain word → Spelled (.path word) [word]

/-- **The command lines that spell a list of items.** -/
inductive Derives : List Item → List Bytes → Prop
  | nil : Derives [] []
  | cons {item : Item} {items : List Item} {words rest : List Bytes} :
      item.Spelled words → Derives items rest → Derives (item :: items) (words ++ rest)
  /-- Behind a lone `--` every word is a path. -/
  | paths (words : List Bytes) : Derives (words.map .path) (Utf8.encode "--" :: words)

/-! ## What is read off a list of items -/

def Item.value? (o : ValueOption) : Item → Option String
  | .option o' text => if o' = o then some text else none
  | _ => none

def Item.path? : Item → Option Bytes
  | .path word => some word
  | _ => none

def values (o : ValueOption) (items : List Item) : List String := items.filterMap (Item.value? o)

def paths (items : List Item) : List Bytes := items.filterMap Item.path?

/-- **What the values of an option say**: nothing if there is none, and what the value means if
there is one. More than one say nothing that can be read. -/
def Given {α : Type} (means : String → α → Prop) : List String → Option α → Prop
  | [], none => True
  | [text], some a => means text a
  | _, _ => False

/-- **What a list of items says**, if it says something at all. -/
structure ReadOff (items : List Item) (c : Arguments) : Prop where
  json : items.count .json = c.json.toNat
  timeout : Given (fun text d => parseTimeout text = .ok d) (values .timeout items) c.timeout
  extension : ∃ given, Given (fun text extension => extension = text)
    (values .extension items) given ∧ c.extension = given.getD "lua"
  color : ∃ given, Given (fun text choice => text = choice.word)
    (values .color items) given ∧ c.color = given.getD .auto
  paths : paths items = [c.root.bytes, c.interpreter.bytes]
  root_ne_nil : c.root.bytes ≠ []
  interpreter_ne_nil : c.interpreter.bytes ≠ []

/-- What values say does not depend on their order: of more than one nothing can be read. -/
theorem Given.of_perm {α : Type} {means : String → α → Prop} {texts texts' : List String}
    {given : Option α} (h : Given means texts given) (hperm : texts.Perm texts') :
    Given means texts' given := by
  match texts, given with
  | [], none => rwa [List.nil_perm.mp hperm]
  | [text], some a => rwa [← List.singleton_perm.mp hperm]

/-- **What items say does not depend on their order**, except for that of the paths. -/
theorem ReadOff.of_perm {items items' : List Item} {c : Arguments} (h : ReadOff items c)
    (hperm : items.Perm items')
    (hpaths : CommandLine.paths items = CommandLine.paths items') : ReadOff items' c := by
  have hvalues : ∀ o, (values o items).Perm (values o items') := fun o => hperm.filterMap _
  obtain ⟨extension, hextension, hextension'⟩ := h.extension
  obtain ⟨color, hcolor, hcolor'⟩ := h.color
  refine ⟨?_, h.timeout.of_perm (hvalues _),
    ⟨extension, hextension.of_perm (hvalues _), hextension'⟩,
    ⟨color, hcolor.of_perm (hvalues _), hcolor'⟩, hpaths ▸ h.paths, h.root_ne_nil,
    h.interpreter_ne_nil⟩
  rw [← h.json]
  exact (hperm.count_eq _).symm

/-! ## Items taken one after the other -/

abbrev Sofar := Found × Option Slot

def place (f : Found) (p : Path) : Slot → Found
  | .root => { f with root := some p }
  | .interpreter => { f with interpreter := some p }

/-- **What an item adds to what was found before.** -/
inductive Item.Takes : Item → Sofar → Sofar → Prop
  | json {f : Found} {next : Option Slot} : f.json = false →
      Takes .json (f, next) ({ f with json := true }, next)
  | timeout {f : Found} {next : Option Slot} {text : String} {d : Duration} :
      f.timeout = none → parseTimeout text = .ok d →
      Takes (.option .timeout text) (f, next) ({ f with timeout := some d }, next)
  | extension {f : Found} {next : Option Slot} (text : String) : f.extension = none →
      Takes (.option .extension text) (f, next) ({ f with extension := some text }, next)
  | color {f : Found} {next : Option Slot} (choice : ColorChoice) : f.color = none →
      Takes (.option .color choice.word) (f, next) ({ f with color := some choice }, next)
  | path {f : Found} {slot : Slot} {word : Bytes} : word ≠ [] →
      Takes (.path word) (f, some slot) (place f ⟨word⟩ slot, slot.next)

/-- What a list of items adds. -/
inductive TakesAll : List Item → Sofar → Sofar → Prop
  | nil (x : Sofar) : TakesAll [] x x
  | cons {item : Item} {items : List Item} {x y z : Sofar} :
      item.Takes x y → TakesAll items y z → TakesAll (item :: items) x z

/-! ### One option, and the paths -/

/-- What values add to what was given before: an option that has a value takes no other. -/
def Adds {α : Type} (means : String → α → Prop) : Option α → List String → Option α → Prop
  | none, texts, after => Given means texts after
  | some a, texts, after => texts = [] ∧ after = some a

theorem adds_nil {α : Type} {means : String → α → Prop} {before after : Option α} :
    Adds means before [] after ↔ after = before := by
  cases before with
  | none => cases after <;> simp [Adds, Given]
  | some a => simp [Adds]

/-- One value more is the first one, or it is too many. -/
theorem adds_cons {α : Type} {means : String → α → Prop} {before after : Option α} {text : String}
    {texts : List String} :
    Adds means before (text :: texts) after ↔
      before = none ∧ ∃ a, means text a ∧ Adds means (some a) texts after := by
  cases before with
  | some a => simp [Adds]
  | none =>
      cases texts with
      | nil => cases after <;> simp [Adds, Given]
      | cons text' texts => simp [Adds, Given]

/-- The two paths that were found, and the place of the next one. -/
abbrev Places := Option Path × Option Path × Option Slot

/-- Where words that are paths take their places. -/
inductive Placed : List Bytes → Places → Places → Prop
  | nil (x : Places) : Placed [] x x
  | root {word : Bytes} {words : List Bytes} {root interpreter : Option Path} {x : Places} :
      word ≠ [] → Placed words (some ⟨word⟩, interpreter, some .interpreter) x →
      Placed (word :: words) (root, interpreter, some .root) x
  | interpreter {word : Bytes} {words : List Bytes} {root interpreter : Option Path}
      {x : Places} : word ≠ [] → Placed words (root, some ⟨word⟩, none) x →
      Placed (word :: words) (root, interpreter, some .interpreter) x

/-- **Both paths are placed** if and only if there are two of them, and neither is empty. -/
theorem placed_both_iff {words : List Bytes} {root interpreter : Path} {next : Option Slot} :
    Placed words (none, none, some .root) (some root, some interpreter, next) ↔
      words = [root.bytes, interpreter.bytes] ∧ root.bytes ≠ [] ∧ interpreter.bytes ≠ [] ∧
        next = none := by
  constructor
  · intro h
    -- The places are taken in their order, and behind the second there is none.
    cases h with
    | root hroot h =>
        cases h with
        | interpreter hinterpreter h =>
            cases h
            exact ⟨rfl, hroot, hinterpreter, rfl⟩
  · rintro ⟨rfl, hroot, hinterpreter, rfl⟩
    exact .root hroot (.interpreter hinterpreter (.nil _))

/-! ### All items -/

/-- What items add, each part by itself. -/
structure Sums (items : List Item) (x y : Sofar) : Prop where
  json : y.1.json.toNat = x.1.json.toNat + items.count .json
  timeout : Adds (fun text d => parseTimeout text = .ok d) x.1.timeout (values .timeout items)
    y.1.timeout
  extension : Adds (fun text extension => extension = text) x.1.extension
    (values .extension items) y.1.extension
  color : Adds (fun text choice => text = choice.word) x.1.color (values .color items) y.1.color
  paths : Placed (paths items) (x.1.root, x.1.interpreter, x.2) (y.1.root, y.1.interpreter, y.2)

theorem sums_nil {x y : Sofar} : Sums [] x y ↔ x = y := by
  constructor
  · rintro ⟨hjson, htimeout, hextension, hcolor, hpaths⟩
    obtain ⟨⟨_, _, _, _, _, json⟩, _⟩ := x
    obtain ⟨⟨_, _, _, _, _, json'⟩, _⟩ := y
    obtain rfl : json' = json := by
      cases json <;> cases json' <;> first | rfl | cases hjson
    cases adds_nil.mp htimeout
    cases adds_nil.mp hextension
    cases adds_nil.mp hcolor
    cases hpaths
    rfl
  · rintro rfl
    exact ⟨rfl, adds_nil.mpr rfl, adds_nil.mpr rfl, adds_nil.mpr rfl, .nil _⟩

/-- **One more item adds what it says**, if it may be given after what was found. -/
theorem sums_cons {item : Item} {items : List Item} {x z : Sofar} :
    Sums (item :: items) x z ↔ ∃ y, item.Takes x y ∧ Sums items y z := by
  obtain ⟨f, next⟩ := x
  constructor
  · rintro ⟨hjson, htimeout, hextension, hcolor, hpaths⟩
    -- The first item is taken off the part that it belongs to; the other parts stay as they are.
    cases item with
    | json =>
        have hcount : (Item.json :: items).count .json = items.count .json + 1 := by simp
        have hle := Bool.toNat_le z.1.json
        cases hf : f.json with
        | true =>
            simp only [hf, Bool.toNat_true] at hjson
            omega
        | false =>
            refine ⟨_, .json hf, ?_, htimeout, hextension, hcolor, hpaths⟩
            simp only [hf, Bool.toNat_false, Bool.toNat_true] at hjson ⊢
            omega
    | option o text =>
        cases o with
        | timeout =>
            obtain ⟨hnone, d, hparse, hrest⟩ := adds_cons.mp htimeout
            exact ⟨_, .timeout hnone hparse, hjson, hrest, hextension, hcolor, hpaths⟩
        | extension =>
            obtain ⟨hnone, extension, rfl, hrest⟩ := adds_cons.mp hextension
            exact ⟨_, .extension _ hnone, hjson, htimeout, hrest, hcolor, hpaths⟩
        | color =>
            obtain ⟨hnone, choice, rfl, hrest⟩ := adds_cons.mp hcolor
            exact ⟨_, .color choice hnone, hjson, htimeout, hextension, hrest, hpaths⟩
    | path word =>
        have hpaths' : Placed (word :: paths items) (f.root, f.interpreter, next)
            (z.1.root, z.1.interpreter, z.2) := hpaths
        cases hpaths' with
        | root hne hrest => exact ⟨_, .path hne, hjson, htimeout, hextension, hcolor, hrest⟩
        | interpreter hne hrest =>
            exact ⟨_, .path hne, hjson, htimeout, hextension, hcolor, hrest⟩
  · rintro ⟨y, hitem, hjson, htimeout, hextension, hcolor, hpaths⟩
    cases hitem with
    | json hjson' =>
        refine ⟨?_, htimeout, hextension, hcolor, hpaths⟩
        simp [hjson, hjson', Nat.add_comm]
    | timeout hnone hparse =>
        exact ⟨hjson, adds_cons.mpr ⟨hnone, _, hparse, htimeout⟩, hextension, hcolor, hpaths⟩
    | extension text hnone =>
        exact ⟨hjson, htimeout, adds_cons.mpr ⟨hnone, _, rfl, hextension⟩, hcolor, hpaths⟩
    | color choice hnone =>
        exact ⟨hjson, htimeout, hextension, adds_cons.mpr ⟨hnone, _, rfl, hcolor⟩, hpaths⟩
    | @path _ slot word hne =>
        cases slot with
        | root => exact ⟨hjson, htimeout, hextension, hcolor, .root hne hpaths⟩
        | interpreter => exact ⟨hjson, htimeout, hextension, hcolor, .interpreter hne hpaths⟩

/-- **Items taken one after the other** add what each part of them adds by itself. -/
theorem takesAll_iff {items : List Item} {x y : Sofar} : TakesAll items x y ↔ Sums items x y := by
  induction items generalizing x with
  | nil =>
      rw [sums_nil]
      constructor
      · rintro ⟨⟩
        rfl
      · rintro rfl
        exact .nil x
  | cons item items ih =>
      rw [sums_cons]
      constructor
      · rintro (_ | ⟨hitem, hrest⟩)
        exact ⟨_, hitem, ih.mp hrest⟩
      · rintro ⟨y', hitem, hrest⟩
        exact .cons hitem (ih.mpr hrest)

/-- **What is found at the end is what is read off all the items.** -/
theorem readOff_iff {items : List Item} {c : Arguments} :
    ReadOff items c ↔ ∃ f next, TakesAll items (.nothing, some .root) (f, next) ∧
      f.toArguments = .ok c := by
  simp only [takesAll_iff]
  constructor
  · rintro ⟨hjson, htimeout, ⟨extension, hextension, hextension'⟩, ⟨color, hcolor, hcolor'⟩,
      hpaths, hroot, hinterpreter⟩
    refine ⟨⟨some c.root, some c.interpreter, c.timeout, extension, color, c.json⟩, none,
      ⟨?_, htimeout, hextension, hcolor, placed_both_iff.mpr ⟨hpaths, hroot, hinterpreter, rfl⟩⟩,
      ?_⟩
    · simp [hjson, Found.nothing]
    · rw [Found.toArguments, ← hcolor', Settings.defaultExtension, ← hextension']
  · rintro ⟨f, next, ⟨hjson, htimeout, hextension, hcolor, hpaths⟩, hc⟩
    unfold Found.toArguments at hc
    split at hc
    · next root interpreter hroot hinterpreter =>
      obtain rfl := Except.ok.inj hc
      rw [hroot, hinterpreter] at hpaths
      obtain ⟨hwords, hroot, hinterpreter, -⟩ := placed_both_iff.mp hpaths
      refine ⟨?_, htimeout, ⟨_, hextension, rfl⟩, ⟨_, hcolor, rfl⟩, hwords, hroot, hinterpreter⟩
      simpa [Found.nothing] using hjson.symm
    · cases hc

end CommandLine

end Conformance
