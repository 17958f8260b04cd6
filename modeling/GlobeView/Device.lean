/-
# Devices

The class of the device decides which topology the globe loads.  It is guessed
from the user agent: an agent that mentions one of a few words, in any case, is
a mobile device.
-/

import GlobeView.Text.Pieces

namespace GlobeView

/-- The text with the capital letters from A to Z made small. -/
def lowerCase (text : String) : List Char :=
  text.toList.map Char.toLower

/-- The kind of device the globe runs on. -/
inductive Device where
  | desktop
  | mobile
  deriving DecidableEq, Repr

namespace Device

/-- Words of which a mobile agent mentions one. -/
def mobileAgents : List String :=
  ["android", "blackberry", "iemobile", "ipad", "iphone", "ipod", "opera mini", "webos"]

/-- The device of a user agent. -/
def ofUserAgent (agent : String) : Device :=
  if mobileAgents.any fun word => occursIn word.toList (lowerCase agent) then mobile else desktop

/-- The name of the device, shown and in documents. -/
def name : Device → String
  | desktop => "desktop"
  | mobile => "mobile"

/-- The device of a name. -/
def ofName? : String → Option Device
  | "desktop" => some desktop
  | "mobile" => some mobile
  | _ => none

/-- Whether the device is a mobile one. -/
def isMobile : Device → Bool
  | desktop => false
  | mobile => true

/-- The path of the topology for the device. -/
def topology : Device → String
  | desktop => "/data/earth-topo.json?v2"
  | mobile => "/data/earth-topo-mobile.json?v2"

end Device

/-- Whether the user agent is probably Firefox. -/
def isFirefox (agent : String) : Bool :=
  occursIn "firefox".toList (lowerCase agent)

end GlobeView
