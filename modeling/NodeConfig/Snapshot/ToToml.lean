import NodeConfig.Identity
import NodeConfig.Toml.Write

namespace NodeConfig

def tomlPair (x : Identity) : Field → List Char
  | .text f => Toml.writePair f.key (x.get f)
  | .certFetched =>
    (if x.certFetched then "cert_fetched = true\n" else "cert_fetched = false\n").toList

def tomlOfSnapshot (x : Identity) : String :=
  String.ofList ("[cluster]\n".toList ++ Field.all.flatMap (tomlPair x))

end NodeConfig
