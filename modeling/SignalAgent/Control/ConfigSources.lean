/- MID: SignalAgent/Control/ConfigSources
   layer: results
   source: components/edgecontroller/config_manager.go
   digest: The command line names the sources; the validator and a restart read the same ones. -/

import SignalAgent.Control.ConfigSet

set_option autoImplicit false
set_option relaxedAutoImplicit false

namespace SignalAgent.Control.ConfigSources

open Foundations.GoMaps Foundations.GoStrings Foundations.GoText
open ConfigApply ConfigSet

/-- The settings of the extension that the manager reads. -/
structure Config where
  configFile : GoString
  remoteConfigWrite : Bool

section Flags

end Flags

private def flags : List GoString :=
  [lit "--config", lit "file:/etc/agent/main.yaml", lit "--feature-gates=x",
    lit "--config=env:OVERRIDES", lit "-config", lit "/etc/agent/overlay.yaml", lit "--config"]

end SignalAgent.Control.ConfigSources
