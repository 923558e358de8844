import OnePass.Command.Basic

namespace OnePass

/-- More instructions than any run can execute in practice. -/
def unlimited : Nat := 0x4000000000000000

/-- Reads a file, or standard input where there is no name. -/
def readSource : Option String → IO Command.Reading
  | none => do
      let bytes ← (← IO.getStdin).readBinToEnd
      return .contents bytes.toList
  | some name =>
      try
        return .contents (← IO.FS.readBinFile name).toList
      catch
        | .noFileOrDirectory .. =>
            return .unreadable "No such file or directory"
        | .inappropriateType .. => return .unreadable "Is a directory"
        | .permissionDenied .. => return .unreadable "Permission denied"
        | other => return .unreadable (toString other)

def channelTo (stream : IO.FS.Stream) : IO Command.Channel := do
  return if ← stream.isTty then .terminal else .pipe

/-- The response to the given arguments. -/
def respond (arguments : List String) : IO (Option Command.Response) := do
  let out ← channelTo (← IO.getStdout)
  let err ← channelTo (← IO.getStderr)
  let host : Command.Host := ⟨out, err, fun _ _ => nestingLimit⟩
  match Command.interpret host arguments with
  | .answered response => return some response
  | .requested request =>
      return request.respond host unlimited (← readSource request.file)

end OnePass

def main (arguments : List String) : IO UInt32 := do
  match ← OnePass.respond arguments with
  | none => return 3
  | some response =>
      (← IO.getStdout).putStr response.stdout
      (← IO.getStderr).putStr response.stderr
      return UInt32.ofNat response.exitCode
