import Conformance.Host.Tool.Dump
import Conformance.Host.Tool.Edit.Run
import Conformance.Host.Tool.Listing
import Conformance.Host.Tool.Transfer
import Conformance.Host.Tool.Value

set_option autoImplicit false

/-! # The tools

What each tool is going to do with its arguments.
-/

namespace Conformance

namespace Tool

open Shell (Text)

/-- Makes a file or a directory with a name that is not used yet. -/
def mktemp (scene : Scene) (args : List Text) : Plan :=
  Options.parse ⟨"dqut", "p", [("directory", 'd')]⟩ "mktemp" 1 args fun p =>
    let letters := (Nat.toDigits 36 (Nat.pow 36 9 + scene.tree.entries.size)).map fun c =>
      if c = '*' then 'z' else c
    let template := p.operands.head?.getD "/tmp/tmp.XXXXXXXXXX".toList
    let front := dropTail (· = 'X') template
    let path := front ++ lastOf (template.length - front.length) letters
    let made : Except Errno FileTree :=
      if p.has 'd' then makeDirectory scene.tree scene.cwd 0o700 (bytes path)
      else (scene.tree.write scene.cwd (bytes path) 0o600 id).map (·.2)
    match made with
    | .ok tree => .change tree (path ++ ['\n']) [] 0
    | .error e => .complain ("mktemp: failed to create file via template '" ++ str template
        ++ "': " ++ e.description) 1

def plan (name : String) (scene : Scene) (args : List Text) : Plan :=
  match name with
  | "true" | "sync" => .finish [] [] 0
  | "false" => .finish [] [] 1
  | "[" | "test" => test scene name args
  | "base64" => base64 args
  | "basename" => basename args
  | "cat" => cat args
  | "chmod" => chmod scene args
  | "cmp" => cmp args
  | "comm" => comm args
  | "cp" => cp scene args
  | "cut" => cut args
  | "dd" => dd args
  | "dirname" => dirname args
  | "echo" => echo args
  | "egrep" => grep ['E'] scene args
  | "env" => env scene args
  | "expr" => expr args
  | "fgrep" => grep ['F'] scene args
  | "find" => find scene args
  | "fold" => fold args
  | "grep" => grep [] scene args
  | "head" => head args
  | "id" => userId args
  | "kill" => kill args
  | "ln" => ln scene args
  | "ls" => ls scene args
  | "mkdir" => mkdir scene args
  | "mktemp" => mktemp scene args
  | "mv" => mv scene args
  | "nice" => nice scene args
  | "nl" => nl args
  | "nohup" => nohup scene args
  | "od" => od args
  | "paste" => paste args
  | "printenv" => printenv scene args
  | "printf" => printf args
  | "pwd" => pwd scene
  | "readlink" => readlink scene args
  | "realpath" => realpath scene args
  | "rev" => rev args
  | "rm" => rm scene args
  | "rmdir" => rmdir scene args
  | "sed" => sed scene args
  | "seq" => seq args
  | "setsid" => setsid scene args
  | "sleep" => sleep args
  | "sort" => sort args
  | "stat" => stat scene args
  | "stdbuf" => stdbuf scene args
  | "tac" => tac args
  | "tail" => tail args
  | "tee" => tee args
  | "timeout" => timeout args
  | "touch" => touch scene args
  | "tr" => tr args
  | "truncate" => truncate scene args
  | "uname" => uname args
  | "uniq" => uniq args
  | "unlink" => unlinkOne scene args
  | "wc" => wc args
  | "which" => which scene args
  | "whoami" => .print "root\n".toList
  | "xargs" => xargs args
  | "yes" => yes args
  | _ => .complain (name ++ ": cannot be run") 126

end Tool

end Conformance
