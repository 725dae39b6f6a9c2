import Husarnet.Config.Licensing
import Husarnet.Lib.StateProgram

/-! # What a licence signature covers

`generateSignatureData` writes the fields of a licence one on a line and the addresses of a list
between commas, without escaping. The end of a list overwrites the last character, and of an empty
list that is the newline before it. So the text can be read back in more ways than one.
-/

namespace Husarnet
open Octets JsonDoc StateProgram
set_option autoImplicit false

/-- The fields that `generateSignatureData` reads. -/
structure LicenseFields where
  version : ℤ
  installationId : Bytes
  licenseId : Bytes
  name : Bytes
  maxDevices : ℤ
  dashboardUrl : Bytes
  websetupHost : Bytes
  baseServerAddresses : List Bytes
  apiServers : List Bytes
  ebServers : List Bytes
  issued : Bytes
  validUntil : Bytes

namespace LicenseFields

def integerField (licenseJson : Json) (key : Bytes) : Except Fault ℤ := do
  match ← licenseJson.member key with
  | .int z => return z
  | _ => throw .typeError

def stringField (licenseJson : Json) (key : Bytes) : Except Fault Bytes := licenseJson.member key >>= Json.getString

def stringsField (licenseJson : Json) (key : Bytes) : Except Fault (List Bytes) :=
  licenseJson.member key >>= Json.getStrings

/-- The fields of a document that has them all, with the right types. -/
def read (licenseJson : Json) : Except Fault LicenseFields := do
  let version ← integerField licenseJson LICENSE_VERSION_KEY
  let installationId ← stringField licenseJson LICENSE_INSTALLATION_ID_KEY
  let licenseId ← stringField licenseJson LICENSE_LICENSE_ID_KEY
  let name ← stringField licenseJson LICENSE_NAME_KEY
  let maxDevices ← integerField licenseJson LICENSE_MAX_DEVICES_KEY
  let dashboardUrl ← stringField licenseJson LICENSE_DASHBOARD_URL_KEY
  let websetupHost ← stringField licenseJson LICENSE_WEBSETUP_HOST_KEY
  let baseServerAddresses ← stringsField licenseJson LICENSE_BASE_SERVER_ADDRESSES_KEY
  let apiServers ← stringsField licenseJson LICENSE_API_SERVERS_KEY
  let ebServers ← stringsField licenseJson LICENSE_EB_SERVERS_KEY
  let issued ← stringField licenseJson LICENSE_ISSUED_KEY
  let validUntil ← stringField licenseJson LICENSE_VALID_UNTIL_KEY
  return ⟨version, installationId, licenseId, name, maxDevices, dashboardUrl, websetupHost, baseServerAddresses,
    apiServers, ebServers, issued, validUntil⟩

def lists (f : LicenseFields) : List Bytes × List Bytes × List Bytes :=
  (f.baseServerAddresses, f.apiServers, f.ebServers)

/-- `std::to_string` of `get<int>()`. -/
def decimal (z : ℤ) : Bytes := ascii (toString (Json.wrapInt32 z))

/-- What a list adds to the text. -/
def listLine : List Bytes → Bytes
  | [] => []
  | a :: as => setLast ((a :: as).flatMap fun a => a ++ [0x2c]) 0x0a

def head (f : LicenseFields) : Bytes :=
  decimal f.version ++ 0x0a :: f.installationId ++ 0x0a :: f.licenseId ++ 0x0a :: f.name ++ 0x0a :: decimal f.maxDevices
    ++ 0x0a :: f.dashboardUrl ++ 0x0a :: f.websetupHost ++ [0x0a]

def listLines (f : LicenseFields) : Bytes :=
  listLine f.baseServerAddresses ++ listLine f.apiServers ++ listLine f.ebServers

def text (f : LicenseFields) : Bytes := f.head ++ f.listLines ++ f.issued ++ 0x0a :: f.validUntil

/-! ## The text of a document -/

def toJson (f : LicenseFields) : Json :=
  .object [(LICENSE_VERSION_KEY, .int f.version), (LICENSE_INSTALLATION_ID_KEY, .string f.installationId),
    (LICENSE_LICENSE_ID_KEY, .string f.licenseId), (LICENSE_NAME_KEY, .string f.name),
    (LICENSE_MAX_DEVICES_KEY, .int f.maxDevices), (LICENSE_DASHBOARD_URL_KEY, .string f.dashboardUrl),
    (LICENSE_WEBSETUP_HOST_KEY, .string f.websetupHost),
    (LICENSE_BASE_SERVER_ADDRESSES_KEY, .array (f.baseServerAddresses.map .string)),
    (LICENSE_API_SERVERS_KEY, .array (f.apiServers.map .string)),
    (LICENSE_EB_SERVERS_KEY, .array (f.ebServers.map .string)), (LICENSE_ISSUED_KEY, .string f.issued),
    (LICENSE_VALID_UNTIL_KEY, .string f.validUntil)]

theorem read_toJson (f : LicenseFields) : read f.toJson = .ok f := by
  have hbase : stringsField f.toJson LICENSE_BASE_SERVER_ADDRESSES_KEY = .ok f.baseServerAddresses :=
    Json.getStrings_strings f.baseServerAddresses
  have hapi : stringsField f.toJson LICENSE_API_SERVERS_KEY = .ok f.apiServers := Json.getStrings_strings f.apiServers
  have heb : stringsField f.toJson LICENSE_EB_SERVERS_KEY = .ok f.ebServers := Json.getStrings_strings f.ebServers
  rw [read, hbase, hapi, heb]
  rfl

end LicenseFields

/-- A licence document that is valid as JSON and has all fields with the right types. -/
structure TypedLicense where
  json : Json
  fields : LicenseFields
  valid : isJsonValid (some json) = true
  reads : LicenseFields.read json = .ok fields

namespace TypedLicense

def ofFields (fields : LicenseFields) : TypedLicense where
  json := fields.toJson
  fields := fields
  valid := rfl
  reads := fields.read_toJson

end TypedLicense
end Husarnet
