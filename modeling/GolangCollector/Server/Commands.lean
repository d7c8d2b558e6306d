import GolangCollector.Store.AdType

/-! # Commands and their authorization levels

The command table of `server/commands.go`: `collectorCommands` gives every collector command the
level an identity must hold to run it, `commandPerm` reads it (a command outside the table runs at
READ), and `queryCommands`, `updateCommands` and `invalidateCommands` name the table each
`QUERY_*_ADS`, `UPDATE_*_AD` and `INVALIDATE_*_ADS` command scans, feeds or prunes. -/

namespace GolangCollector

inductive Perm where
  | read
  | negotiator
  | daemon
  | advertiseStartd
  | advertiseSchedd
  | advertiseMaster
  deriving DecidableEq, Repr

/-- The commands `Register` handles. -/
inductive Command where
  | queryStartdAds
  | queryStartdPvtAds
  | queryScheddAds
  | queryMasterAds
  | queryCkptSrvrAds
  | querySubmittorAds
  | queryLicenseAds
  | queryCollectorAds
  | queryStorageAds
  | queryAccountingAds
  | queryNegotiatorAds
  | queryHadAds
  | queryAnyAds
  | queryGridAds
  | queryMultipleAds
  | queryMultiplePvtAds
  | invalidateStartdAds
  | invalidateScheddAds
  | invalidateMasterAds
  | invalidateCkptSrvrAds
  | invalidateSubmittorAds
  | invalidateLicenseAds
  | invalidateCollectorAds
  | invalidateStorageAds
  | invalidateAccountingAds
  | invalidateNegotiatorAds
  | invalidateHadAds
  | invalidateGridAds
  | updateStartdAd
  | updateStartdAdWithAck
  | updateScheddAd
  | updateSubmittorAd
  | updateLicenseAd
  | updateMasterAd
  | updateCkptSrvrAd
  | updateCollectorAd
  | updateStorageAd
  | updateNegotiatorAd
  | updateHadAd
  | updateGridAd
  | updateAccountingAd
  /-- The subscription to a table's changes, which only this collector has. -/
  | watchAds
  deriving DecidableEq, Repr

def collectorCommands : Command → Option Perm
  | .queryStartdAds => some .read
  | .queryStartdPvtAds => some .negotiator
  | .queryScheddAds => some .read
  | .queryMasterAds => some .read
  | .queryCkptSrvrAds => some .read
  | .querySubmittorAds => some .read
  | .queryLicenseAds => some .read
  | .queryCollectorAds => some .read
  | .queryStorageAds => some .read
  | .queryAccountingAds => some .read
  | .queryNegotiatorAds => some .read
  | .queryHadAds => some .read
  | .queryAnyAds => some .read
  | .queryGridAds => some .read
  | .queryMultipleAds => some .read
  | .queryMultiplePvtAds => some .negotiator
  | .invalidateStartdAds => some .advertiseStartd
  | .invalidateScheddAds => some .advertiseSchedd
  | .invalidateMasterAds => some .advertiseMaster
  | .invalidateCkptSrvrAds => some .daemon
  | .invalidateSubmittorAds => some .advertiseSchedd
  | .invalidateLicenseAds => some .daemon
  | .invalidateCollectorAds => some .daemon
  | .invalidateStorageAds => some .daemon
  | .invalidateAccountingAds => some .negotiator
  | .invalidateNegotiatorAds => some .negotiator
  | .invalidateHadAds => some .daemon
  | .invalidateGridAds => some .daemon
  | .updateStartdAd => some .advertiseStartd
  | .updateStartdAdWithAck => some .advertiseStartd
  | .updateScheddAd => some .advertiseSchedd
  | .updateSubmittorAd => some .advertiseSchedd
  | .updateLicenseAd => some .daemon
  | .updateMasterAd => some .advertiseMaster
  | .updateCkptSrvrAd => some .daemon
  | .updateCollectorAd => some .daemon
  | .updateStorageAd => some .daemon
  | .updateNegotiatorAd => some .negotiator
  | .updateHadAd => some .daemon
  | .updateGridAd => some .daemon
  | .updateAccountingAd => some .negotiator
  | .watchAds => none

def commandPerm (cmd : Command) : Perm := (collectorCommands cmd).getD .read

def queryCommands : Command → Option AdType
  | .queryStartdAds => some .startdAd
  | .queryStartdPvtAds => some .startdPvtAd
  | .queryScheddAds => some .scheddAd
  | .queryMasterAds => some .masterAd
  | .querySubmittorAds => some .submitterAd
  | .queryCollectorAds => some .collectorAd
  | .queryNegotiatorAds => some .negotiatorAd
  | .queryLicenseAds => some .licenseAd
  | .queryStorageAds => some .storageAd
  | .queryCkptSrvrAds => some .ckptSrvrAd
  | .queryAccountingAds => some .accountingAd
  | .queryGridAds => some .gridAd
  | .queryHadAds => some .hadAd
  | .queryAnyAds => some .anyAd
  | _ => none

def updateCommands : Command → Option AdType
  | .updateStartdAd => some .startdAd
  | .updateScheddAd => some .scheddAd
  | .updateMasterAd => some .masterAd
  | .updateSubmittorAd => some .submitterAd
  | .updateCollectorAd => some .collectorAd
  | .updateNegotiatorAd => some .negotiatorAd
  | .updateLicenseAd => some .licenseAd
  | .updateStorageAd => some .storageAd
  | .updateCkptSrvrAd => some .ckptSrvrAd
  | .updateAccountingAd => some .accountingAd
  | .updateGridAd => some .gridAd
  | .updateHadAd => some .hadAd
  | _ => none

def invalidateCommands : Command → Option AdType
  | .invalidateStartdAds => some .startdAd
  | .invalidateScheddAds => some .scheddAd
  | .invalidateMasterAds => some .masterAd
  | .invalidateSubmittorAds => some .submitterAd
  | .invalidateCollectorAds => some .collectorAd
  | .invalidateNegotiatorAds => some .negotiatorAd
  | .invalidateLicenseAds => some .licenseAd
  | .invalidateStorageAds => some .storageAd
  | .invalidateCkptSrvrAds => some .ckptSrvrAd
  | .invalidateAccountingAds => some .accountingAd
  | .invalidateGridAds => some .gridAd
  | .invalidateHadAds => some .hadAd
  | _ => none

variable {cmd : Command} {t : AdType}

theorem updateCommands_public (h : updateCommands cmd = some t) :
    t ≠ .anyAd ∧ t ≠ .startdPvtAd := by
  revert h
  cases cmd <;> rintro ⟨⟩ <;> decide

theorem invalidateCommands_public (h : invalidateCommands cmd = some t) :
    t ≠ .anyAd ∧ t ≠ .startdPvtAd := by
  revert h
  cases cmd <;> rintro ⟨⟩ <;> decide

theorem invalidateCommands_of_update (h : updateCommands cmd = some t) :
    invalidateCommands cmd = none := by
  revert h
  cases cmd <;> rintro ⟨⟩ <;> rfl

theorem queryCommands_ne_startdPvtAd (h : commandPerm cmd = .read) :
    queryCommands cmd ≠ some .startdPvtAd := by
  cases cmd <;> revert h <;> decide

theorem commandPerm_eq_read (h : commandPerm cmd = .read) :
    (∃ t, queryCommands cmd = some t ∧ t ≠ .startdPvtAd) ∨ cmd = .queryMultipleAds ∨
      cmd = .watchAds := by
  have hne := queryCommands_ne_startdPvtAd h
  cases cmd <;> first
    | exact Or.inr (Or.inl rfl)
    | exact Or.inr (Or.inr rfl)
    | exact Or.inl ⟨_, rfl, fun ht => hne (by rw [← ht]; rfl)⟩
    | exact absurd h (by decide)

end GolangCollector
