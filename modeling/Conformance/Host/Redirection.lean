import Conformance.Host.Proceed

set_option autoImplicit false

/-! # Redirections

How the descriptors of a process are made to lead elsewhere. What a descriptor led to before is
saved once, so that several redirections of it are undone together.
-/

namespace Conformance

open Shell (Text Handle SavedHandles Redirect)

namespace Task

def restore (t : Task) (saved : SavedHandles) : Task :=
  saved.foldl (fun t (n, h) => t.setHandle n h) t

end Task

/-- What comes of redirections: the process, its descriptors as they were, and why one of the
redirections was impossible. -/
structure Redirected where
  task : Task
  saved : SavedHandles
  failure : Option String

namespace World

/-- The fault of a target that must be a descriptor and is none. -/
def badTarget? (redirects : List (Redirect Text)) : Option String :=
  (redirects.find? fun r => r.kind = .duplicate && r.target ≠ ['-']
    && !(r.target.length = 1 && r.target.all Char.isDigit)).map
    fun _ => "Syntax error: Bad fd number"

def newFileMode (s : Shell.State) : Nat := 0o666 &&& (0o777 ^^^ s.umask)

/-- Opens what a redirection leads to; none closes the descriptor. -/
def openTarget (w : World) (t : Task) (s : Shell.State) (r : Redirect Text) :
    Except String (Option Handle × World) :=
  let path := Tool.bytes r.target
  let output (access : Shell.Access) : Except String (Option Handle × World) :=
    match w.openOutput t path access (newFileMode s) with
    | .ok (h, w) => .ok (some h, w)
    | .error e => .error (openFailure "create" r.target e "Directory nonexistent")
  let present : Bool := match w.tree.find t.cwd path with
    | .ok (_, entry) => entry.isRegular
    | .error _ => false
  match r.kind with
  | .input =>
    match w.openInput t path with
    | .ok (h, w) => .ok (some h, w)
    | .error e => .error (openFailure "open" r.target e "No such file")
  | .output =>
    if s.has 'C' ∧ present then
      .error (openFailure "create" r.target .alreadyThere "")
    else output .write
  | .clobber => output .write
  | .append => output .append
  | .inputOutput => output .both
  | .document _ =>
    let (p, w) := w.newPipe
    .ok (some (.pipeInput p), w.setPipe p (.ofBytes path))
  | .duplicate =>
    if r.target = ['-'] then .ok (none, w)
    else
      let n := Shell.Arithmetic.ofDigits 10 r.target
      match t.handle? n with
      | some h => .ok (some h, w)
      | none =>
        if n = r.descriptor then .ok (none, w) else .error (toString n ++ ": Bad file descriptor")

/-- Redirects descriptors of a process, up to the first that cannot be redirected. -/
def redirectAll (s : Shell.State) : World → Redirected → List (Redirect Text) → World × Redirected
  | w, done, [] => (w, done)
  | w, done, r :: rest =>
    match w.openTarget done.task s r with
    | .error message => (w, { done with failure := some message })
    | .ok (h, w) =>
      let saved := if done.saved.any (·.1 = r.descriptor) then done.saved
        else done.saved ++ [(r.descriptor, done.task.handle? r.descriptor)]
      redirectAll s w ⟨done.task.setHandle r.descriptor h, saved, none⟩ rest

def redirect (w : World) (t : Task) (s : Shell.State) (redirects : List (Redirect Text)) :
    World × Redirected :=
  redirectAll s w ⟨t, [], none⟩ redirects

/-- Lets a shell say that a redirection was impossible, where the ones before it lead, and go on
with its own descriptors. -/
def refuseRedirection (w : World) (done : Redirected) (s : Shell.State) (message : String) :
    World :=
  let w := w.complain done.task s message 2
  match w.task? done.task.pid with
  | some t => w.set (t.restore done.saved)
  | none => w

end World

end Conformance
