import TofuSdk.OrdMap
import TofuSdk.Outcome
import TofuSdk.Panic
import TofuSdk.Zip
import TofuSdk.BinaryFloat
import TofuSdk.MessagePack
import TofuSdk.Number
import TofuSdk.Value
import TofuSdk.Ty
import TofuSdk.Codec
import TofuSdk.Encode
import TofuSdk.Decode
import TofuSdk.Conforms
import TofuSdk.Wire
import TofuSdk.Agree
import TofuSdk.Constraint
import TofuSdk.Untyped
import TofuSdk.Dynamic
import TofuSdk.Sent
import TofuSdk.Stored
import TofuSdk.JsBoundary
import TofuSdk.Schema
import TofuSdk.Plan
import TofuSdk.Traverse
import TofuSdk.Replace
import TofuSdk.Planning
import TofuSdk.Typed
import TofuSdk.Reflect
import TofuSdk.Codable
import TofuSdk.Normalize
import TofuSdk.Quotient
import TofuSdk.Suppress
import TofuSdk.Timeouts
import TofuSdk.Handler
import TofuSdk.Traits
import TofuSdk.Builder
import TofuSdk.Registration
import TofuSdk.Registered
import TofuSdk.Provenance
import TofuSdk.Service
import TofuSdk.Dispatch
import TofuSdk.Lifecycle
import TofuSdk.Failure
import TofuSdk.Guard
import TofuSdk.Chunks
import TofuSdk.Run
import TofuSdk.PrivateState
import TofuSdk.TreePath
import TofuSdk.Paths
import TofuSdk.Redaction
import TofuSdk.Exposure
import TofuSdk.JsonText
import TofuSdk.RealCrates
import TofuSdk.WellTyped
import TofuSdk.Upgrade
import TofuSdk.Identity
import TofuSdk.Accompany
import TofuSdk.Emit
import TofuSdk.Licensed
import TofuSdk.Defaults
import TofuSdk.Markers
import TofuSdk.Promises
import TofuSdk.SetOrder
import TofuSdk.Zod
import TofuSdk.SchemaJson
import TofuSdk.NativeBlock
import TofuSdk.Entries
import TofuSdk.Tagged
import TofuSdk.Revive
import TofuSdk.Infer
import TofuSdk.Lossless
import TofuSdk.Spelling
import TofuSdk.Merge
import TofuSdk.Secrets
import TofuSdk.FloatCast
import TofuSdk.RoundTrip
import TofuSdk.Narrow
import TofuSdk.Durations
import TofuSdk.Deadlines
import TofuSdk.Utf8
import TofuSdk.Writes
import TofuSdk.NodeStore
import TofuSdk.Binding
import TofuSdk.Ephemeral
import TofuSdk.Leaks
import TofuSdk.Log
import TofuSdk.Dispositions
import TofuSdk.JsPaths
import TofuSdk.NumberText
import TofuSdk.JsText
import TofuSdk.NodeContext
import TofuSdk.NodeResource
import TofuSdk.NodeStores
import TofuSdk.NodeHooks
import TofuSdk.Session
import TofuSdk.Delivery
import TofuSdk.Handles
import TofuSdk.NodeEphemeral
import TofuSdk.NodeFunction
import TofuSdk.NodeRoles
import TofuSdk.NodeData
