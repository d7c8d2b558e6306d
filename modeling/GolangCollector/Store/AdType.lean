import GolangCollector.Lib.GoStrings

/-! # The collector's ad tables

`AdType` names one table of the collector (`store/adtype.go`): `anyAd` is query-only, the fourteen
others are storage tables, and `startdPvtAd` is the one private table among them. The two resolvers
of a table from a wire name are `adTypeForTarget` (a query's target type) and `adTypeByName` (a
watch's ad-type name), the attribute names the store reads are those of `store/attrs.go`. -/

namespace GolangCollector

open GoStrings

/-- One collector table. -/
inductive AdType where
  /-- Query-only: search every public table. -/
  | anyAd
  | startdAd
  /-- The private startd ads (claim ids), keyed like their public ads. -/
  | startdPvtAd
  | scheddAd
  | masterAd
  | submitterAd
  | collectorAd
  | negotiatorAd
  | licenseAd
  | storageAd
  | ckptSrvrAd
  | accountingAd
  | gridAd
  | hadAd
  | genericAd
  deriving DecidableEq, Repr

namespace AdType

def storageTypes : List AdType :=
  [startdAd, startdPvtAd, scheddAd, masterAd, submitterAd, collectorAd, negotiatorAd, licenseAd,
    storageAd, ckptSrvrAd, accountingAd, gridAd, hadAd, genericAd]

def publicTypes : List AdType := storageTypes.filter (· ≠ startdPvtAd)

theorem startdPvtAd_notMem_publicTypes : startdPvtAd ∉ publicTypes := by decide

def visited (t : AdType) : List AdType := if t = .anyAd then publicTypes else [t]

def name : AdType → Text
  | anyAd => "Any"
  | startdAd => "Startd"
  | startdPvtAd => "StartdPvt"
  | scheddAd => "Schedd"
  | masterAd => "Master"
  | submitterAd => "Submitter"
  | collectorAd => "Collector"
  | negotiatorAd => "Negotiator"
  | licenseAd => "License"
  | storageAd => "Storage"
  | ckptSrvrAd => "CkptSrvr"
  | accountingAd => "Accounting"
  | gridAd => "Grid"
  | hadAd => "HAD"
  | genericAd => "Generic"

end AdType

/-! ## Resolving a table from a wire name -/

def targetToAd : List (Text × AdType) :=
  [("Machine", .startdAd), ("Slot", .startdAd), ("StartdPvt", .startdPvtAd),
    ("Scheduler", .scheddAd), ("DaemonMaster", .masterAd),
    ("Submitter", .submitterAd), ("Collector", .collectorAd),
    ("Negotiator", .negotiatorAd), ("License", .licenseAd),
    ("Storage", .storageAd), ("CkptServer", .ckptSrvrAd),
    ("Accounting", .accountingAd), ("Grid", .gridAd), ("HAD", .hadAd),
    ("Generic", .genericAd)]

def adTypeForTarget (name : Text) : Option AdType := targetToAd.lookup name

def adTypeByName (name : Text) : Option AdType :=
  match targetToAd.lookup name with
  | some t => some t
  | none => AdType.storageTypes.find? fun t =>
    equalFold t.name name || equalFold (t.name ++ "Ad") name

/-! ## Attribute names -/

def attrName : Text := "Name"
def attrMachine : Text := "Machine"
def attrMyAddress : Text := "MyAddress"
def attrMyType : Text := "MyType"
def attrSlotID : Text := "SlotID"
def attrStartdIPAddr : Text := "StartdIpAddr"
def attrScheddName : Text := "ScheddName"
def attrScheddIPAddr : Text := "ScheddIpAddr"
def attrLastHeardFrom : Text := "LastHeardFrom"
def attrClassAdLifetime : Text := "ClassAdLifetime"

end GolangCollector
