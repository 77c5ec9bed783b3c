import HealthRollup.Config.Launch

/-! The program's command line: it reads its arguments and its environment and prints what they come to,
the settings of the controller or the reason why there are none. -/
namespace HealthRollup
namespace Main

def variableNames : List String :=
  ["HEALTHSCOPE_ENDPOINT_ADDR","HEALTHSCOPE_METRICS_ADDR","KUBERNETES_NAMESPACE","KUBECONFIG",
    "LOG_LEVEL"]

def environment : IO Environment :=
  variableNames.filterMapM fun name => do
    let value ← IO.getEnv name
    return value.map fun s => (name,s)

def printExit (e : Exit) : IO UInt32 := do
  IO.print e.output
  IO.eprint e.errors
  return e.code.toUInt32

end Main
end HealthRollup

open HealthRollup in
def main (arguments : List String) : IO UInt32 := do
  match Launch.run arguments (← Main.environment) with
  | .exit e => Main.printExit e
  | .failed f => Main.printExit ⟨1,"",f.message ++ "\n"⟩
  | .ready l => Main.printExit ⟨0,(Value.record l.config).display ++ "\n",""⟩
