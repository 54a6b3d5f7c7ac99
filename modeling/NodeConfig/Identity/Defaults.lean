import NodeConfig.Identity
import NodeConfig.NodeName
import NodeConfig.Report

namespace NodeConfig

/-- An identity after its defaults, and where the next names come from. -/
structure Defaulted where
  identity : Identity
  names : NameSource
  report : Report

namespace Identity

def fill (x : Identity) (f : TextField) (s : String) : Identity :=
  if x.get f = "" then x.set f s else x

def clusterTarget : String := "dataplane_config::config::cluster"

/-- Fills mode and certificate paths; a name is made only where there is none. -/
def withDefaults (x : Identity) (names : NameSource) : Defaulted :=
  let modeReport : Report :=
    if x.mode = "" then
      .event ⟨.debug, clusterTarget, "Cluster mode defaulted", [("mode", .quoted defaultMode)]⟩
    else .nothing
  let y := ((x.fill .mode defaultMode).fill .certificatePath defaultCertificatePath).fill
    .certificateKeyPath defaultCertificateKeyPath
  if y.name = "" then
    let (name, names) := names.mint
    ⟨{ y with name := name }, names, modeReport ++
      .event ⟨.info, clusterTarget, "Generated cluster node name", [("name", .shown name)]⟩⟩
  else ⟨y, names, modeReport⟩

end Identity

end NodeConfig
