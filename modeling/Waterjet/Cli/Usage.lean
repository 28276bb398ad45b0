import Waterjet.Cli.Outcome

/-!
The texts that explain the command line, and the answer to one that asks for no run.
-/
namespace Waterjet.Cli

def usage : String :=
  "usage: jetsim [-h] [--config CONFIG] [--pierce-time PIERCE_TIME]\n" ++
  "              [--speed SPEED] [--reference REFERENCE] [-v]\n" ++
  "              path\n"

def helpText : String :=
  usage ++
  "\nParse a waterjet NC program and estimate its cut time.\n" ++
  "\npositional arguments:\n" ++
  "  path                  NC program file\n" ++
  "\noptions:\n" ++
  "  -h, --help            show this help message and exit\n" ++
  "  --config CONFIG       Estimator config JSON\n" ++
  "  --pierce-time PIERCE_TIME\n" ++
  "                        Minutes per pierce\n" ++
  "  --speed SPEED         Cutting speed override (mm/min)\n" ++
  "  --reference REFERENCE\n" ++
  "                        Reference cut time to compare against (min)\n" ++
  "  -v, --verbose         Enable debug logging\n"

def Halt.outcome : Halt → Outcome
  | .help => ⟨helpText, "", .status 0⟩
  | .misuse f => ⟨"", usage ++ s!"jetsim: error: {f.message}\n", .status 2⟩

end Waterjet.Cli
