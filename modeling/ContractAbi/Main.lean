import ContractAbi.Cli.Run

/-!
# The `abi` program

The command line on the real file system: it runs `Cli.run` in the process's working directory
with the `RUST_LOG` variable as the log filter, prints what the run prints, and exits with its
status. File operations go to the operating system; their failures keep its error codes.
-/

namespace ContractAbi.Cli

/-- A file operation failure as the operating system reports it. -/
def ioErrorOf (e : IO.Error) : IoError :=
  match e with
  | .noFileOrDirectory .. => .notFound
  | .alreadyExists .. => .alreadyExists
  | .inappropriateType _ code _ =>
    if code == 21 then .isDirectory else if code == 20 then .notDirectory else .other (toString e)
  | _ => .other (toString e)

instance : Disk IO where
  readText path := do
    try return .ok (← IO.FS.readFile path)
    catch e => return .error (ioErrorOf e)
  isFile path := do
    try
      let _ ← IO.FS.readFile path
      return true
    catch _ => return false
  createDirAll path := do
    try
      IO.FS.createDirAll path
      return .ok ()
    catch e => return .error (ioErrorOf e)
  writeText path contents := do
    try
      IO.FS.writeFile path contents
      return .ok ()
    catch e => return .error (ioErrorOf e)

end ContractAbi.Cli

/-- Runs the `abi` command line. -/
def main (args : List String) : IO UInt32 := do
  let cwd ← IO.currentDir
  let logEnv ← IO.getEnv "RUST_LOG"
  let out ← ContractAbi.Cli.run args cwd.toString logEnv
  IO.print out.stdout
  IO.eprint out.stderr
  return out.status.toUInt32
