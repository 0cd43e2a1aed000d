import Conformance.Proofs.Path.Naming
import Conformance.Proofs.Text.Utf8
import Conformance.Proofs.Walk.Completion
import Conformance.Proofs.Walk.Noninterference

set_option autoImplicit false

/-! # What an extension selects

A file name is cut at its last dot and ends at a slash, so that what stands behind its last dot has
neither: a path can have an extension if and only if the extension is unbroken by both
(`Path.exists_extension_iff`). Settings are checked for less. Apart from a timeout of zero only the
empty extension is refused (`Settings.validate_eq_ok_iff`), so that there are settings that are
valid and select no path at all.

`Settings.selection_by_extension` tells the two kinds apart, and what becomes of a run: with an
unbroken extension every file that is called by it is run and counted, and with a broken one the run
counts nothing and succeeds.
-/

namespace Conformance

/-- A character below 0x80 is in a text if and only if its byte is in the bytes of the text. -/
theorem Utf8.mem_encode_iff {text : String} {c : Char} (hc : c.toNat < 0x80) :
    UInt8.ofNat c.toNat ∈ encode text ↔ c ∈ text.toList := by
  have hbyte : (UInt8.ofNat c.toNat).toNat = c.toNat := toNat_ofNat (by omega)
  constructor
  · intro hmem
    obtain ⟨c', hc', heq⟩ := mem_encode_ascii hmem (by rwa [hbyte])
    rw [hbyte, Char.toNat_inj] at heq
    rwa [← heq]
  · intro hmem
    refine List.mem_flatMap.mpr ⟨c, hmem, ?_⟩
    have hbytes := encodes_utf8EncodeChar c
    generalize String.utf8EncodeChar c = bytes at hbytes
    cases hbytes with
    | one => exact List.mem_singleton_self _
    | two => omega
    | three => omega
    | four => omega

namespace Path

/-! ## Extensions that a path can have -/

/-- Bytes that neither a dot nor a slash breaks. -/
structure Unbroken (bytes : Bytes) : Prop where
  no_dot : dot ∉ bytes
  no_slash : slash ∉ bytes

instance (bytes : Bytes) : Decidable (Unbroken bytes) :=
  decidable_of_iff (dot ∉ bytes ∧ slash ∉ bytes)
    ⟨fun h => ⟨h.1, h.2⟩, fun h => ⟨h.no_dot, h.no_slash⟩⟩

theorem unbroken_encode_iff {text : String} :
    Unbroken (Utf8.encode text) ↔ '.' ∉ text.toList ∧ '/' ∉ text.toList := by
  have hdot : dot ∈ Utf8.encode text ↔ '.' ∈ text.toList :=
    @Utf8.mem_encode_iff text '.' (by decide)
  have hslash : slash ∈ Utf8.encode text ↔ '/' ∈ text.toList :=
    @Utf8.mem_encode_iff text '/' (by decide)
  rw [← hdot, ← hslash]
  exact ⟨fun h => ⟨h.no_dot, h.no_slash⟩, fun h => ⟨h.1, h.2⟩⟩

theorem no_slash_of_fileName {p : Path} {name : Bytes} (h : p.fileName = some name) :
    slash ∉ name := by
  unfold fileName at h
  obtain ⟨-, hname⟩ := Option.ite_none_right_eq_some.mp h
  rw [← Option.some.inj hname]
  exact slash_not_mem_lastPiece p.bytes.reverse

variable {stem ext : Bytes}

/-- An unbroken stem that is not empty, a dot and an unbroken extension are a name that an entry of a
directory can have. -/
theorem plainName_of_unbroken (hne : stem ≠ []) (hstem : Unbroken stem) (hext : Unbroken ext) :
    PlainName (stem ++ dot :: ext) := by
  have hslash : slash ∉ stem ++ dot :: ext := by
    rw [List.mem_append, List.mem_cons, not_or, not_or]
    exact ⟨hstem.no_slash, by decide, hext.no_slash⟩
  obtain ⟨b, rest, rfl⟩ := List.exists_cons_of_ne_nil hne
  have hb : b ≠ dot := by
    rintro rfl
    exact hstem.no_dot List.mem_cons_self
  exact ⟨isName_iff.mpr ⟨by simp, by simp [hb], by simp [hb]⟩, hslash⟩

/-- **A path to an entry that is called by an extension**: by an unbroken stem, a dot and the
extension. -/
def CalledBy (p : Path) (ext : Bytes) : Prop :=
  ∃ (dir : Path) (stem : Bytes), stem ≠ [] ∧ Unbroken stem ∧ p = dir.join (stem ++ dot :: ext)

theorem CalledBy.extension_eq {p : Path} (h : p.CalledBy ext) (hext : Unbroken ext) :
    p.extension = some ext := by
  obtain ⟨dir, stem, hne, hstem, rfl⟩ := h
  have hname : (dir.join (stem ++ dot :: ext)).fileName = some (stem ++ dot :: ext) := by
    rw [fileName_eq, components_join dir (plainName_of_unbroken hne hstem hext),
      lastName?_append_singleton]
    rfl
  rw [extension, hname, Option.bind_some]
  exact splitName_eq_some_iff.mpr ⟨stem, rfl, hext.no_dot, hne⟩

/-- **A path can have an extension if and only if the extension is unbroken.** -/
theorem exists_extension_iff : (∃ p : Path, p.extension = some ext) ↔ Unbroken ext := by
  constructor
  · rintro ⟨p, hp⟩
    obtain ⟨name, hname, hsplit⟩ := Option.bind_eq_some_iff.mp hp
    obtain ⟨stem, rfl, hdot, -⟩ := splitName_eq_some_iff.mp hsplit
    have hslash := no_slash_of_fileName hname
    exact ⟨hdot, fun hmem => hslash (List.mem_append_right _ (List.mem_cons_of_mem _ hmem))⟩
  · intro hext
    have hx : CalledBy (join ⟨[]⟩ ([0x78] ++ dot :: ext)) ext :=
      ⟨⟨[]⟩, [0x78], by decide, by decide, rfl⟩
    exact ⟨_, hx.extension_eq hext⟩

end Path

/-! ## Runs that return totals -/

namespace View

variable {v : View} {s : Settings} {outcome : TestCase → Outcome} {depth : Nat}

/-- **A run that returns totals has run exactly the scripts below its root, and has counted them.** -/
theorem counts_of_ok {sink : Sink} {t : Totals} {session : Session (List TestCase)}
    (hrun : v.runSuites outcome s depth sink = (.ok t, session)) :
    t.CountsCases outcome session.state ∧ ∀ c, c ∈ session.state ↔ v.IsCase s c := by
  obtain ⟨sights, last, r, htrail, hfate, hplays⟩ := exists_plays_runSuites v s outcome depth
  obtain ⟨rfl, hstate⟩ := ran_of_ok hplays hrun
  cases hfate with
  | done ht =>
      rw [hstate]
      refine ⟨ht, fun ⟨p⟩ => ?_⟩
      rw [Settings.mem_scripts, file_mem_iff_below htrail, and_assoc]
      rfl

end View

namespace Settings

open Conformance.Path (Unbroken dot)

variable {s : Settings}

/-! ## What is set and what is refused -/

/-- **What is kept of a text when one leading dot is dropped.** -/
inductive DropsDot : String → String → Prop
  | dotted (kept : String) : DropsDot ("." ++ kept) kept
  | undotted {e : String} : e.toList.head? ≠ some '.' → DropsDot e e

theorem DropsDot.dropDot_eq {e kept : String} (h : DropsDot e kept) : dropDot e = kept := by
  cases h with
  | dotted =>
      have htext : ("." ++ kept).toList = '.' :: kept.toList := by simp
      rw [dropDot, htext]
      simp
  | undotted hhead =>
      unfold dropDot
      split
      · next rest htext =>
        rw [htext] at hhead
        exact absurd rfl hhead
      · rfl

theorem withExtension_of_dropsDot {e kept : String} (h : DropsDot e kept) :
    s.withExtension e = { s with extension := kept } := by
  rw [withExtension, h.dropDot_eq]

/-- Settings are refused for a timeout of zero and for an empty extension, and for nothing else. -/
theorem validate_eq_ok_iff :
    s.validate = .ok () ↔ s.timeout.isZero = false ∧ s.extension ≠ "" := by
  unfold validate
  cases s.timeout.isZero with
  | true => simp
  | false =>
      by_cases hempty : s.extension = ""
      · simp [hempty]
      · simp [hempty]

/-! ## What is selected -/

theorem isScript_of_calledBy {p : Path} (hp : p.CalledBy (Utf8.encode s.extension))
    (hext : Unbroken (Utf8.encode s.extension)) : s.isScript p = true :=
  decide_eq_true (hp.extension_eq hext)

/-- With a broken extension no path is a script, also if it still begins with a dot. -/
theorem isScript_eq_false (hext : ¬ Unbroken (Utf8.encode s.extension)) (p : Path) :
    s.isScript p = false :=
  decide_eq_false fun hp => hext (Path.exists_extension_iff.mp ⟨p, hp⟩)

/-- A run that returns totals under a broken extension has run nothing, and succeeds. -/
theorem zero_of_broken (hext : ¬ Unbroken (Utf8.encode s.extension)) {v : View}
    {outcome : TestCase → Outcome} {depth : Nat} {sink : Sink} {t : Totals}
    {session : Session (List TestCase)}
    (hrun : v.runSuites outcome s depth sink = (.ok t, session)) :
    session.state = [] ∧ t = .zero ∧ t.exitCode = 0 := by
  obtain ⟨hcounts, hran⟩ := View.counts_of_ok hrun
  have hnone : session.state = [] := by
    refine List.eq_nil_iff_forall_not_mem.mpr fun c hc => ?_
    obtain ⟨-, -, hscript⟩ := (hran c).mp hc
    rw [isScript_eq_false hext] at hscript
    cases hscript
  rw [hnone] at hcounts
  obtain rfl : t = .zero := hcounts.unique Totals.counts_zero
  exact ⟨hnone, rfl, rfl⟩

/-- **What an extension selects.** Let `kept` be what is left of an extension that is set. The
settings are refused only if nothing is left or the timeout is zero. If `kept` has no dot and no
slash, every entry of a directory is a script that is called by it; when such a file lies below the
root, a run that returns totals has run and counted it. If `kept` has a dot inside or a slash, no
path is a script, and a run that returns totals has run nothing and succeeds. Nothing is said of a
`kept` that still begins with a dot, which settings are not meant to have. -/
theorem selection_by_extension (s : Settings) {e kept : String} (hkept : DropsDot e kept) :
    ((s.withExtension e).validate = .ok () ↔ s.timeout.isZero = false ∧ kept ≠ "") ∧
    ('.' ∉ kept.toList → '/' ∉ kept.toList → ∀ p : Path, p.CalledBy (Utf8.encode kept) →
      (s.withExtension e).isScript p = true ∧
      ∀ (v : View) outcome depth sink t session,
        v.runSuites outcome (s.withExtension e) depth sink = (.ok t, session) →
        v.Below s.root p → v.isDirectory p = false → ⟨p⟩ ∈ session.state ∧ t.total ≠ 0) ∧
    ('.' ∈ kept.toList ∨ '/' ∈ kept.toList → kept.toList.head? ≠ some '.' →
      (∀ p, (s.withExtension e).isScript p = false) ∧
      ∀ (v : View) outcome depth sink t session,
        v.runSuites outcome (s.withExtension e) depth sink = (.ok t, session) →
        session.state = [] ∧ t = .zero ∧ t.exitCode = 0) := by
  rw [withExtension_of_dropsDot hkept]
  refine ⟨validate_eq_ok_iff, ?_, ?_⟩
  · intro hdot hslash p hp
    have hscript : Settings.isScript { s with extension := kept } p = true :=
      isScript_of_calledBy hp (Path.unbroken_encode_iff.mpr ⟨hdot, hslash⟩)
    refine ⟨hscript, fun v outcome depth sink t session hrun hbelow hfile => ?_⟩
    obtain ⟨hcounts, hran⟩ := View.counts_of_ok hrun
    have hmem : ⟨p⟩ ∈ session.state := (hran ⟨p⟩).mpr ⟨hbelow, hfile, hscript⟩
    -- The case has been run, so that the total is not zero.
    refine ⟨hmem, fun hzero => ?_⟩
    have hlength : session.state.length = 0 := by
      rw [← hcounts.total, hzero]
      rfl
    exact List.ne_nil_of_mem hmem (List.length_eq_zero_iff.mp hlength)
  · -- No path is a script wherever the dot stands (`isScript_eq_false`). That it does not stand first
    -- only keeps the statement to extensions that settings are meant to have.
    intro hbroken _
    have hext : ¬ Unbroken (Utf8.encode kept) := by
      rw [Path.unbroken_encode_iff]
      tauto
    exact ⟨isScript_eq_false hext, fun _ _ _ _ _ _ => zero_of_broken hext⟩

/-- On the sample a run counts something for `.lua`, and nothing for `tar.gz`. -/
theorem selection_by_extension_sample :
    (∃ depth t session, View.sampleListed.runSuites View.sampleOutcome
        (sample.withExtension ".lua") depth .unlimited = (.ok t, session) ∧ t.total ≠ 0) ∧
    ∃ depth t session, View.sampleListed.runSuites View.sampleOutcome
        (sample.withExtension "tar.gz") depth .unlimited = (.ok t, session) ∧ t = .zero := by
  have hruns : ∀ e, ((sample.withExtension e).scripts View.sampleSights).length < UInt64.size →
      ∃ depth t session, View.sampleListed.runSuites View.sampleOutcome
        (sample.withExtension e) depth .unlimited = (.ok t, session) := by
    intro e hfew
    obtain ⟨t, -, depth, hdepth⟩ := View.returns_of_end (s := sample.withExtension e)
      View.sampleOutcome View.trail_sampleListed hfew
    exact ⟨depth, t, _, hdepth depth (Nat.le_refl depth)⟩
  constructor
  · obtain ⟨depth, t, session, hrun⟩ := hruns ".lua" (by decide)
    obtain ⟨-, hselects, -⟩ := selection_by_extension sample (.dotted "lua")
    have hcalled : (Path.ofText "t/a.lua").CalledBy (Utf8.encode "lua") :=
      ⟨.ofText "t", Utf8.encode "a", by decide, by decide, by decide⟩
    obtain ⟨-, hcounts⟩ := hselects (by decide) (by decide) _ hcalled
    have hbelow : View.sampleListed.Below sample.root
        ((Path.ofText "t").join (Utf8.encode "a.lua")) := .entry rfl (by decide)
    exact ⟨depth, t, session, hrun, (hcounts _ _ _ _ _ _ hrun hbelow (by decide)).2⟩
  · obtain ⟨depth, t, session, hrun⟩ := hruns "tar.gz" (by decide)
    obtain ⟨-, -, hnothing⟩ := selection_by_extension sample (.undotted (e := "tar.gz") (by decide))
    obtain ⟨-, hzero⟩ := hnothing (.inl (by decide)) (by decide)
    exact ⟨depth, t, session, hrun, (hzero _ _ _ _ _ _ hrun).2.1⟩

/-- **Settings that are valid may select nothing.** An archive is called by the extension `tar.gz`,
yet it is no script, and a run over a root that holds nothing else succeeds without a case. -/
theorem compound_extension_selects_nothing :
    DropsDot "tar.gz" "tar.gz" ∧
    (sample.withExtension "tar.gz").validate = .ok () ∧
    (Path.ofText "t/x.tar.gz").CalledBy (Utf8.encode "tar.gz") ∧
    (sample.withExtension "tar.gz").isScript (.ofText "t/x.tar.gz") = false ∧
    ((View.ofListings [(.ofText "t", .ok [Utf8.encode "x.tar.gz"])]).runSuites View.sampleOutcome
      (sample.withExtension "tar.gz") 1 .unlimited).1 = .ok .zero ∧
    Totals.zero.exitCode = 0 := by
  refine ⟨.undotted (by decide), by decide, ?_, by decide, by decide +kernel, rfl⟩
  exact ⟨.ofText "t", Utf8.encode "x", by decide, by decide, by decide⟩

end Settings

end Conformance
