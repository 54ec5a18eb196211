import SwiftRelay.AccountTraffic
import SwiftRelay.Admission
import SwiftRelay.BudgetLimits
import SwiftRelay.BudgetTruth
import SwiftRelay.BufferSlots
import SwiftRelay.ConnectionsPayload
import SwiftRelay.DestTally
import SwiftRelay.FlowCap
import SwiftRelay.FlowIdle
import SwiftRelay.FlowParse
import SwiftRelay.FlowPorts
import SwiftRelay.FragmentRewrite
import SwiftRelay.Guards
import SwiftRelay.Incarnations
import SwiftRelay.IndexUpkeep
import SwiftRelay.InnerEndpoints
import SwiftRelay.ObserveEnforce
import SwiftRelay.Readiness
import SwiftRelay.ResolveCodec
import SwiftRelay.ResponseCodec
import SwiftRelay.SessionCaps
import SwiftRelay.SourceLimits
import SwiftRelay.StatsHttp
import SwiftRelay.TokenAllocation
import SwiftRelay.TunAddress
import SwiftRelay.TunReplies
import SwiftRelay.TwoLoops
import SwiftRelay.Wakeups
