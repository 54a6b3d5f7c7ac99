import NodeConfig.Identity
import NodeConfig.Yaml.Write

namespace NodeConfig

def yamlEntry (x : Identity) : Field → List Char
  | .text f => Yaml.writeEntry 2 f.key (x.get f)
  | .certFetched =>
    "  cert_fetched: ".toList ++ (if x.certFetched then "true\n" else "false\n").toList

def yamlOfSnapshot (x : Identity) : String :=
  String.ofList ("cluster:\n".toList ++ Field.all.flatMap (yamlEntry x))

end NodeConfig
