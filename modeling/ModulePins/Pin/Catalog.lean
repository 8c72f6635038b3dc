import ModulePins.Pin.Basic

/-!
# The catalog of standard pins

The pins that modules may name by a mnemonic instead of declaring them property by property.

* `Catalog.entries` — the mnemonics and their pins, in catalog order;
* `Catalog.lookup?`, `Catalog.require` — the pin of a mnemonic.
-/

namespace ModulePins

namespace Catalog

/-- A pin of the catalog: the properties are declared one after the other. -/
def entry (id : String) (required : Bool) (properties : List Property) : Pin :=
  ⟨id, required, Keyed.collapse Property.key properties⟩

/-- Access to a relational database. -/
def jdbc : Pin :=
  entry "it.water.persistence.jdbc" true
    [⟨"db.host", true, false, "", "Database hostname", "string", ""⟩,
     ⟨"db.port", true, false, "5432", "Database port", "string", ""⟩,
     ⟨"db.username", true, false, "", "Database username", "string", ""⟩,
     ⟨"db.password", true, true, "", "Database password", "string", ""⟩,
     ⟨"db.pool.size", false, false, "10", "Connection pool size", "string", ""⟩]

/-- The gateway in front of the services. -/
def apiGateway : Pin :=
  entry "it.water.api-gateway" false
    [⟨"gateway.base.url", true, false, "", "API Gateway base URL", "string", ""⟩,
     ⟨"gateway.admin.url", false, false, "", "API Gateway admin URL", "string", ""⟩,
     ⟨"gateway.timeout.millis", false, false, "30000",
      "Connection timeout in milliseconds", "string", ""⟩]

/-- The registry that services announce themselves to. -/
def serviceDiscovery : Pin :=
  entry "it.water.service-discovery" false
    [⟨"service.name", true, false, "", "Logical service name", "string", ""⟩,
     ⟨"service.instance-id", false, false, "",
      "Unique instance ID (auto UUID if empty)", "string", ""⟩,
     ⟨"service.endpoint", true, false, "", "Service endpoint URL", "string", ""⟩,
     ⟨"service.protocol", false, false, "HTTP", "Communication protocol", "string", ""⟩,
     ⟨"service.health-check.endpoint", false, false, "/actuator/health",
      "Health check endpoint path", "string", ""⟩,
     ⟨"service.health-check.interval", false, false, "30",
      "Health check interval in seconds", "string", ""⟩]

/-- The coordinator of a cluster of nodes. -/
def clusterCoordinator : Pin :=
  entry "it.water.cluster.coordinator" false
    [⟨"it.water.connectors.zookeeper.url", true, false, "localhost:2181",
      "Zookeeper ensemble connection string", "string", ""⟩,
     ⟨"it.water.connectors.zookeeper.base.path", false, false, "/water-framework/layers",
      "Zookeeper base path for Water cluster data", "string", ""⟩,
     ⟨"water.core.cluster.node.id", true, false, "", "Cluster node unique ID", "string", ""⟩,
     ⟨"water.core.cluster.node.layer.id", true, false, "",
      "Cluster layer identifier", "string", ""⟩,
     ⟨"water.core.cluster.node.host", false, false, "", "Node hostname", "string", ""⟩,
     ⟨"water.core.cluster.node.ip", false, false, "", "Node IP address", "string", ""⟩,
     ⟨"water.core.cluster.node.use-ip", false, false, "false",
      "Use IP instead of hostname for cluster registration", "string", ""⟩,
     ⟨"water.core.cluster.mode.enabled", false, false, "false",
      "Enable cluster mode", "string", ""⟩]

/-- The issuer of authentication tokens. -/
def authenticationIssuer : Pin :=
  entry "it.water.integration.authentication-issuer" true
    [⟨"water.authentication.service.issuer", true, false, "water",
      "Issuer name for JWT tokens", "string", ""⟩]

/-- The mnemonics and their pins. -/
def entries : List (String × Pin) :=
  [("jdbc", jdbc), ("api-gateway", apiGateway),
   ("service-discovery", serviceDiscovery), ("cluster-coordinator", clusterCoordinator),
   ("authentication-issuer", authenticationIssuer)]

/-- The mnemonics. -/
def available : List String := entries.map (·.1)

/-- The pin of a mnemonic. -/
def lookup? (mnemonic : String) : Option Pin := entries.lookup mnemonic

/-- The pin of a mnemonic that has to be in the catalog. -/
def require (mnemonic : String) : Except Fault Pin :=
  match lookup? mnemonic with
  | some p => .ok p
  | none => .error (.unknownStandardPin mnemonic available)

end Catalog

end ModulePins
