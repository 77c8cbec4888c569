import MiniSql.Lib.CText
import MiniSql.Types
import MiniSql.Tokens
import MiniSql.Parser
import MiniSql.Parser.Conditions
import MiniSql.Parser.Memory
import MiniSql.Csv
import MiniSql.Lib.SortedAssoc
import MiniSql.Lib.Cutter
import MiniSql.Tokens.Lex
import MiniSql.Tokens.Comments
import MiniSql.Grammar
import MiniSql.Format
import MiniSql.Format.Survival
import MiniSql.Format.RoundTrip
import MiniSql.Router
import MiniSql.BPTree
import MiniSql.BPTree.Shape
import MiniSql.BPTree.Cost
import MiniSql.BPTree.Range
import MiniSql.Lib.Block
import MiniSql.BPTree.Arrays
import MiniSql.Lib.Slots
import MiniSql.Where
import MiniSql.Where.Meaning
import MiniSql.SchemaFile
import MiniSql.Storage.State
import MiniSql.Storage.Index
import MiniSql.Storage.Insert
import MiniSql.Storage.InsertAtomic
import MiniSql.Storage.Rewrite
import MiniSql.Storage.Create
import MiniSql.Storage.Select
import MiniSql.Storage.Order
import MiniSql.Storage.Aggregates
import MiniSql.Storage.Touch
import MiniSql.Storage.Rows
import MiniSql.Storage.Listing
import MiniSql.Storage.Mismatch
import MiniSql.Storage.Table
import MiniSql.Storage.Statements
import MiniSql.Storage.Paths
import MiniSql.Storage.Created
import MiniSql.Storage.Calls
import MiniSql.Storage.Typed
import MiniSql.Storage.Matching
import MiniSql.Lib.LetterTrie
import MiniSql.Trie
import MiniSql.Trie.Calls
import MiniSql.Engine
import MiniSql.Extremes
import MiniSql.Lib.Runs
import MiniSql.Lib.Rwlock
import MiniSql.EngineLock
import MiniSql.EngineLock.Progress
import MiniSql.Storage.Foreign
import MiniSql.Storage.Trees
import MiniSql.Storage.Binary
import MiniSql.Storage.Scanners
import MiniSql.Storage.Counters
import MiniSql.EngineFiles
import MiniSql.EngineReady
import MiniSql.Splitting
import MiniSql.RangeSelect
import MiniSql.RangeSelect.Rows
import MiniSql.RangeSelect.Rebuild
import MiniSql.TrieSelect
import MiniSql.AutoIds
import MiniSql.PointSelect
import MiniSql.PointSelect.Insert
import MiniSql.PointSelect.Steps
import MiniSql.PointSelect.Runs
import MiniSql.DictCache
import MiniSql.Lib.Lru
import MiniSql.DictCache.Lru
import MiniSql.Lib.CacheAside
import MiniSql.RouterDict
import MiniSql.DictProtocol
import MiniSql.DictCoherence
import MiniSql.DictCoherence.Runs
import MiniSql.Lib.LinkedQueue
import MiniSql.Threadpool
import MiniSql.Threadpool.Jobs
import MiniSql.Threadpool.Slots
import MiniSql.Threadpool.Runs
import MiniSql.Threadpool.Monitor
import MiniSql.Threadpool.Idle
import MiniSql.Threadpool.Shutdown
import MiniSql.Threadpool.Bodies
import MiniSql.Lib.Handles
import MiniSql.Server
import MiniSql.Server.Stop
import MiniSql.Lib.Json
import MiniSql.Lib.JsonEmit
import MiniSql.EngineJson
import MiniSql.EngineJson.Document
import MiniSql.JsonOut
import MiniSql.JsonOut.Exact
import MiniSql.RouterJson
import MiniSql.RouterJson.Params
import MiniSql.RouterJson.Fields
import MiniSql.RouterJson.Bodies
import MiniSql.RouterJson.Suggestions
import MiniSql.RouterJson.Explain
import MiniSql.RouterJson.Dispatch
import MiniSql.Lib.Simulation
import MiniSql.Database
import MiniSql.Database.Refine
import MiniSql.Database.Runs
import MiniSql.RouterJson.Tables
import MiniSql.Lib.Pathname
import MiniSql.RouterJson.Static
import MiniSql.RouterJson.Completions
import MiniSql.RouterJson.Vocabulary
import MiniSql.Protocol
import MiniSql.Lib.Transfer
import MiniSql.Protocol.Message
import MiniSql.Protocol.Write
import MiniSql.Repl
import MiniSql.Repl.Session
import MiniSql.Repl.Escape
import MiniSql.Repl.Runs
