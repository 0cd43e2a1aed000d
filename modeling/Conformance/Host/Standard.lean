import Conformance.Host.FileTree

set_option autoImplicit false

/-! # The standard tree

The files that every host starts with: the programs in `/usr/bin`, the devices, and an empty working
directory. Test files are planted in the working directory one after the other.
-/

namespace Conformance

/-- A file or directory to be put into a tree. -/
inductive Plant where
  | directory
  | file (mode : Nat) (body : Bytes)
  | link (target : Bytes)
  deriving DecidableEq, Repr

namespace FileTree

def name (text : String) : Bytes := Utf8.encode text

/-- The directory that is reached from one by following pieces, where directories that are missing
are made. Nothing is made below something that is no directory. -/
def descend (t : FileTree) (directory : FileId) : List Bytes → FileId × FileTree
  | [] => (directory, t)
  | piece :: rest =>
    match t.follow true linkLimit directory none false [piece] with
    | .ok ⟨.found _ id, _⟩ => t.descend id rest
    | .ok ⟨.missing parent piece, _⟩ =>
      let (id, t) := t.createDirectory parent piece
      t.descend id rest
    | .error _ => (directory, t)

/-- Plants something, together with the directories that lead there. A file replaces the content of
the file that is there. -/
def plant (t : FileTree) (cwd : FileId) (path : Bytes) (p : Plant) : FileTree :=
  let pieces := piecesOf path
  let start := startOf cwd path
  match p with
  | .directory => (t.descend start pieces).2
  | .link target =>
    let (directory, t) := t.descend start pieces.dropLast
    (t.create directory (pieces.getLast?.getD []) (.link target)).2
  | .file mode body =>
    let (directory, t) := t.descend start pieces.dropLast
    match t.follow true linkLimit directory none false pieces.getLast?.toList with
    | .ok ⟨.found _ id, _⟩ =>
      match t.entryAt id with
      | some (.file _ _) | some (.executable _) => t.set id (.file mode body)
      | _ => t
    | .ok ⟨.missing directory name, _⟩ => (t.create directory name (.file mode body)).2
    | .error _ => t

def plantAll (t : FileTree) (cwd : FileId) (plants : List (Bytes × Plant)) : FileTree :=
  plants.foldl (fun t (path, p) => t.plant cwd path p) t

/-- The tree with an entry at a path from the root. -/
def furnish (t : FileTree) (path : String) (entry : Entry) : FileTree :=
  let pieces := piecesOf (name path)
  let (directory, t) := t.descend root pieces.dropLast
  (t.create directory (pieces.getLast?.getD []) entry).2

def shellNames : List String := ["sh", "dash", "bash"]

def toolNames : List String :=
  ["[", "base64", "basename", "cat", "chmod", "cmp", "comm", "cp", "cut", "dd", "dirname", "echo",
   "egrep", "env", "expr", "false", "fgrep", "find", "fold", "grep", "head", "id", "kill", "ln",
   "ls", "mkdir", "mktemp", "mv", "nice", "nl", "nohup", "od", "paste", "printenv", "printf",
   "pwd", "readlink", "realpath", "rev", "rm", "rmdir", "sed", "seq", "setsid", "sleep", "sort",
   "stat", "stdbuf", "sync", "tac", "tail", "tee", "test", "timeout", "touch", "tr", "true",
   "truncate", "uname", "uniq", "unlink", "wc", "which", "whoami", "xargs", "yes"]

def standardDirectories : List String :=
  ["/tmp/work", "/usr/bin", "/usr/local/bin", "/usr/sbin", "/usr/lib", "/dev", "/etc", "/opt",
   "/root", "/home", "/var/tmp", "/proc", "/sys", "/mnt", "/srv", "/run"]

def standardLinks : List (String × String) :=
  [("/bin", "usr/bin"), ("/sbin", "usr/sbin"), ("/lib", "usr/lib")]

def interpreterPath : String := "/opt/mock_interpreter"

def standard : FileTree :=
  let t := standardDirectories.foldl (fun t path => t.plant root (name path) .directory) empty
  let t := standardLinks.foldl (fun t (path, target) => t.furnish path (.link (name target))) t
  let t := shellNames.foldl (fun t n => t.furnish ("/usr/bin/" ++ n) (.executable .shell)) t
  let t := toolNames.foldl (fun t n => t.furnish ("/usr/bin/" ++ n) (.executable (.tool n))) t
  let devices : List (String × Entry) :=
    [("null", .nullDevice), ("zero", .zeroDevice), ("full", .fullDevice), ("stdin", .descriptor 0),
     ("stdout", .descriptor 1), ("stderr", .descriptor 2), ("tty", .terminal)]
  let t := devices.foldl (fun t (n, e) => t.furnish ("/dev/" ++ n) e) t
  let t := (List.range 10).foldl (fun t n => t.furnish ("/dev/fd/" ++ toString n) (.descriptor n)) t
  let t := t.furnish "/etc/passwd" (.file 0o644 (name "root:x:0:0:root:/root:/bin/bash\n"))
  t.furnish interpreterPath (.executable .directives)

def workDirectory : FileId :=
  match standard.find root (name "/tmp/work") with
  | .ok (id, _) => id
  | .error _ => root

end FileTree

end Conformance
