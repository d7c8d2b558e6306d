import GolangCollector.Store.RemoteBatch
import GolangCollector.Store.CommitUnits
import GolangCollector.Store.Streaming
import GolangCollector.Store.ConnLane
import GolangCollector.Store.Conflicts
import GolangCollector.Store.ExpiryAgreement
import GolangCollector.Store.BufferedOrder
import GolangCollector.Server.OneCall
import GolangCollector.Server.PrivateAds
import GolangCollector.Server.Forwarding
import GolangCollector.Negotiator.SignificantAttrs
import GolangCollector.Accountant.Hierarchy
import GolangCollector.Accountant.Baseline
import GolangCollector.Accountant.GroupLimits
import GolangCollector.Accountant.FanOut
import GolangCollector.Accountant.Journal
import GolangCollector.Accountant.Import
import GolangCollector.Negotiator.Delivery
import GolangCollector.Negotiator.Termination
import GolangCollector.Negotiator.Pacing
import GolangCollector.Negotiator.Replies
import GolangCollector.Negotiator.LeastWeight
import GolangCollector.Negotiator.LimitMaxima
import GolangCollector.Negotiator.FloorRound
import GolangCollector.Negotiator.WarmOwnership
import GolangCollector.Store.TargetDemotion
import GolangCollector.Negotiator.SavedRequirements
import GolangCollector.Negotiator.ClaimIDs
