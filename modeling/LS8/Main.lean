import LS8.Command.Response

/-!
# The command line

Opens the files a command names, hands the arguments to the library and prints the answer.
-/

namespace LS8

/-- The cause of an error in the file system. -/
def IoError.ofSystem (e : IO.Error) : IoError :=
  match e with
  | .noFileOrDirectory .. => .notFound
  | .inappropriateType _ code _ => if code = 20 then .notDirectory else .isDirectory
  | .invalidArgument _ 36 _ => .nameTooLong
  | e => .device (toString e)

/-- The paths of the files that a command reads. -/
def Command.paths : Command → List String
  | .run o => o.config.toList ++ [o.file]
  | .disasm file => [file]
  | .help _ | .version => []

def openPath (path : String) : IO OpenedFile := do
  match ← (IO.FS.Handle.mk path .read).toBaseIO with
  | .error e => return .error (.ofSystem e)
  | .ok handle =>
    match ← handle.readBinToEnd.toBaseIO with
    | .error e => return .ok ⟨[], some (.ofSystem e)⟩
    | .ok bytes => return .ok ⟨bytes.data.toList, none⟩

end LS8

open LS8 in
def main (arguments : List String) : IO UInt32 := do
  let paths := ((Command.ofArguments? arguments).map Command.paths).getD []
  let opened ← paths.mapM fun path => return (path, ← openPath path)
  let files : Files := fun path => (opened.lookup path).getD (.error .notFound)
  match Command.invoke arguments files (← IO.getEnv "RUST_LOG") with
  | none => return 1
  | some response =>
    IO.print response.output
    (← IO.getStdout).flush
    for text in response.errors do
      IO.eprintln text
    return response.exitCode.toUInt32
