import LocalNames.CommandLine

/-! The program: standard output and the exit code are those of the command line's outcome, where
the log is that of an environment that asks for nothing. -/

namespace LocalNames

/-- The content of a file, if it can be read. A directory cannot; any other path is read where it
can be opened, and it is not asked whether it leads to a regular file. -/
def contentOf (file : String) : IO (Option ByteArray) :=
  try
    some <$> IO.FS.readBinFile file
  catch _ => pure none

end LocalNames

def main (arguments : List String) : IO UInt32 := do
  let outcome ← (LocalNames.CommandLine.requestOf arguments).outcome LocalNames.contentOf
  for complaint in outcome.complaints do
    IO.eprintln complaint
  IO.print outcome.output
  return outcome.exitCode.toUInt32
