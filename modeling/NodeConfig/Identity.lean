namespace NodeConfig

structure Identity where
  id : String := ""
  mode : String := ""
  bootstrapKey : String := ""
  activeBootstrapKey : String := ""
  token : String := ""
  url : String := ""
  port : String := ""
  apiBasePath : String := ""
  certificatePath : String := ""
  certificateKeyPath : String := ""
  certFetched : Bool := false
  name : String := ""
  status : String := ""
  description : String := ""
  deriving DecidableEq, Repr, Inhabited

inductive TextField where
  | id | mode | bootstrapKey | activeBootstrapKey | token | url | port | apiBasePath
  | certificatePath | certificateKeyPath | name | status | description
  deriving DecidableEq, Repr

inductive Field where
  | text (f : TextField)
  | certFetched
  deriving DecidableEq, Repr

namespace TextField

def key : TextField → String
  | .id => "id"
  | .mode => "mode"
  | .bootstrapKey => "bootstrap_key"
  | .activeBootstrapKey => "active_bootstrap_key"
  | .token => "token"
  | .url => "url"
  | .port => "port"
  | .apiBasePath => "api_base_path"
  | .certificatePath => "tls-certificate"
  | .certificateKeyPath => "tls-key"
  | .name => "name"
  | .status => "status"
  | .description => "description"

end TextField

namespace Field

def key : Field → String
  | .text f => f.key
  | .certFetched => "cert_fetched"

def all : List Field :=
  [.text .id, .text .mode, .text .bootstrapKey, .text .activeBootstrapKey, .text .token, .text .url,
    .text .port, .text .apiBasePath, .text .certificatePath, .text .certificateKeyPath,
    .certFetched, .text .name, .text .status, .text .description]

def ofKey? (key : String) : Option Field := all.find? (·.key = key)

end Field

namespace Identity

def empty : Identity := {}

def get (x : Identity) : TextField → String
  | .id => x.id
  | .mode => x.mode
  | .bootstrapKey => x.bootstrapKey
  | .activeBootstrapKey => x.activeBootstrapKey
  | .token => x.token
  | .url => x.url
  | .port => x.port
  | .apiBasePath => x.apiBasePath
  | .certificatePath => x.certificatePath
  | .certificateKeyPath => x.certificateKeyPath
  | .name => x.name
  | .status => x.status
  | .description => x.description

def set (x : Identity) (f : TextField) (s : String) : Identity :=
  match f with
  | .id => { x with id := s }
  | .mode => { x with mode := s }
  | .bootstrapKey => { x with bootstrapKey := s }
  | .activeBootstrapKey => { x with activeBootstrapKey := s }
  | .token => { x with token := s }
  | .url => { x with url := s }
  | .port => { x with port := s }
  | .apiBasePath => { x with apiBasePath := s }
  | .certificatePath => { x with certificatePath := s }
  | .certificateKeyPath => { x with certificateKeyPath := s }
  | .name => { x with name := s }
  | .status => { x with status := s }
  | .description => { x with description := s }

def defaultMode : String := "single"
def defaultCertificatePath : String := "tls.crt"
def defaultCertificateKeyPath : String := "tls.key"

end Identity

end NodeConfig
