import Fula.Lib.Run
import Fula.Lib.AsyncGenerator
import Fula.Lib.Cbc
import Fula.Lib.CbcPieces
import Fula.Lib.Utf8
import Fula.Lib.Wire
import Fula.Lib.Truncation
import Fula.Lib.EventEmitter
import Fula.Lib.Json
import Fula.Lib.Properties
import Fula.Lib.Base64
import Fula.Lib.DelayedWrites
import Fula.Lib.Coercion
import Fula.Lib.Throws
import Fula.Lib.Onion
import Fula.Lib.SharedFile
import Fula.Lib.ContentStore
import Fula.AsyncLater.IterateLater
import Fula.AsyncLater.Delivery
import Fula.AsyncLater.Fifo
import Fula.AsyncLater.LateCalls
import Fula.AsyncLater.Partition
import Fula.AsyncLater.Chain
import Fula.AsyncLater.ChainParts
import Fula.AsyncLater.FailingSource
import Fula.AsyncLater.FirstPart
import Fula.AsyncLater.Value
import Fula.AsyncLater.Subject
import Fula.AsyncLater.ToAsyncIterable
import Fula.FileProtocol.AesJs
import Fula.FileProtocol.SendFile
import Fula.FileProtocol.EncryptedBlocks
import Fula.FileProtocol.ReceiveDecrypted
import Fula.FileProtocol.Schema
import Fula.FileProtocol.Save
import Fula.FileProtocol.Uploads
import Fula.FileProtocol.Answered
import Fula.FileProtocol.Retrieve
import Fula.FileProtocol.StoredRecords
import Fula.FileProtocol.GetContent
import Fula.FileProtocol.MetaRoundTrip
import Fula.FileProtocol.Range
import Fula.FileProtocol.History
import Fula.GraphProtocol.Schema
import Fula.GraphProtocol.Framing
import Fula.GraphProtocol.StructJson
import Fula.Protocols.Handler
import Fula.Box.Startup
import Fula.Box.Lifecycle
import Fula.Firmware.Wifi
import Fula.Firmware.Server
import Fula.Firmware.PropertiesFile
import Fula.Firmware.WifiList
import Fula.Firmware.WifiConnect
import Fula.RnFula.Bridge
import Fula.RnFula.Transfers
import Fula.RnFula.ObservableToAsyncGenerator
import Fula.RnFula.Download
import Fula.RnFula.FailingTransfers
import Fula.RnFula.Pieces
import Fula.RnFula.Rpc
import Fula.RnFula.Dispatch
import Fula.RnFula.Leftovers
import Fula.RnFula.BothSides
import Fula.RnFula.EarlyPosts
import Fula.Graph.OrbitFilter
import Fula.Graph.FilterLanguage
import Fula.Graph.OrbitResolvers
import Fula.Graph.UpdateQuery
import Fula.Graph.Mutations
import Fula.Graph.Batches
import Fula.Graph.RefusedFilters
import Fula.Graph.DeclaredFilters
import Fula.Graph.RootKeys
import Fula.Graph.OptionalInputs
import Fula.Graph.ExecuteAndSelect
import Fula.Graph.LiveRead
import Fula.Graph.LiveSettled
import Fula.Graph.DbCollections
import Fula.Graph.OpenDbs
import Fula.Graph.Announcements
import Fula.Graph.Network
import Fula.Graph.TableRefinement
import Fula.Graph.Document
import Fula.Graph.Pushed
import Fula.Graph.Subscriptions
import Fula.FulaClient.Connection
import Fula.FulaClient.Boxes
import Fula.FulaClient.Requests
import Fula.FulaClient.Listeners
import Fula.FulaClient.Stopped
import Fula.FulaClientReact.UseLazyQuery
import Fula.FulaClientReact.UseSubscription
import Fula.FulaClientReact.LiveComponent
