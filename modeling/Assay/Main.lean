import Assay.CommandLine.Terminal

/-!
The command line program.
-/

def main (arguments : List String) : IO UInt32 := do
  pure (← Assay.CommandLine.launch Assay.CommandLine.terminal arguments).toUInt32
