import AmxModC.Foundation.Run
import AmxModC.Foundation.Block
import AmxModC.Foundation.Codec
import AmxModC.Foundation.CString
import AmxModC.Foundation.Keyed
import AmxModC.Foundation.Redo
import AmxModC.Foundation.Exchange
import AmxModC.Machine
import AmxModC.CellVector.Model
import AmxModC.CellVector.Records
import AmxModC.CellVector.Operations
import AmxModC.CellVector.Refinement
import AmxModC.Task.Model
import AmxModC.Task.Slots
import AmxModC.Task.View
import AmxModC.Task.Schedule
import AmxModC.Task.Lifetime
import AmxModC.Task.Rebase
import AmxModC.Forward.Model
import AmxModC.Forward.Slots
import AmxModC.Forward.Registry
import AmxModC.Forward.Nesting
import AmxModC.Forward.Arrays
import AmxModC.Vault.TinyHash
import AmxModC.Vault.Contents
import AmxModC.Vault.Stamped
import AmxModC.Vault.Model
import AmxModC.Vault.RoundTrip
import AmxModC.Vault.Replay
import AmxModC.Vault.Journal
import AmxModC.Vault.Durability
import AmxModC.Trie.Model
import AmxModC.Trie.Shape
import AmxModC.Trie.Edit
import AmxModC.Trie.Place
import AmxModC.Trie.Split
import AmxModC.Trie.Relocate
import AmxModC.Trie.Refinement
import AmxModC.Trie.WellFormed
import AmxModC.Foundation.Cursor
import AmxModC.LogEvent.Model
import AmxModC.LogEvent.Transparency
import AmxModC.Plugin
import AmxModC.Cmd.Model
import AmxModC.Cmd.Lookup
import AmxModC.Native.Model
import AmxModC.Native.Nesting
import AmxModC.Native.Bounds
import AmxModC.Foundation.Layout
import AmxModC.CallFunc.Model
import AmxModC.CallFunc.Layout
import AmxModC.CallFunc.Prepare
import AmxModC.CallFunc.Marshal
import AmxModC.Sql.Handles
import AmxModC.Sql.Ownership
import AmxModC.Sql.Objects
import AmxModC.Sql.Lifetimes
import AmxModC.Sql.Shutdown
import AmxModC.Sql.Worker
import AmxModC.Sql.Sleep
import AmxModC.Sql.Requests
import AmxModC.Sql.Ledger
import AmxModC.Sql.Interleaving
import AmxModC.Sql.Unload
import AmxModC.Sql.Delivery
import AmxModC.Sql.Fulfilment
import AmxModC.Sql.Supply
import AmxModC.Ham.Model
import AmxModC.Ham.Results
import AmxModC.Trie.Remember
import AmxModC.Ham.Suppression
import AmxModC.Fakemeta.Model
import AmxModC.Foundation.DoublyLinked
import AmxModC.Rank.Model
import AmxModC.Rank.Links
import AmxModC.Rank.Refinement
import AmxModC.Rank.WellFormed
import AmxModC.Rank.Order
import AmxModC.Rank.RoundTrip
import AmxModC.Rank.AnyFile
import AmxModC.Engine.Hooks
import AmxModC.Engine.Registered
import AmxModC.Engine.Dispatch
import AmxModC.Engine.Camera
import AmxModC.Engine.Bookkeeping
import AmxModC.Regex.Model
import AmxModC.Regex.Handles
import AmxModC.Foundation.Ledger
import AmxModC.Image.Model
import AmxModC.Image.Ownership
import AmxModC.Image.Loading
import AmxModC.Image.Settled
import AmxModC.Vault.Close
import AmxModC.Vault.Touch
import AmxModC.Foundation.Stream
import AmxModC.Amxx.Model
import AmxModC.Amxx.Layout
import AmxModC.Amxx.Safety
import AmxModC.Amxx.RoundTrip
import AmxModC.Foundation.Text
import AmxModC.PluginList.Reading
import AmxModC.PluginList.Loaded
import AmxModC.Debug.Model
import AmxModC.Debug.NativeFilter
import AmxModC.Debug.Tracer
import AmxModC.Debug.Trace
import AmxModC.Foundation.Sorting
import AmxModC.Sorting.Integers
import AmxModC.Sorting.Loops
import AmxModC.Sorting.Rows
import AmxModC.Sorting.Room
import AmxModC.CellVector.Strings
import AmxModC.CellVector.Sort
import AmxModC.CellVector.World
import AmxModC.CellVector.SortRun
import AmxModC.Forward.Execute
import AmxModC.Forward.Heap
import AmxModC.Forward.Balance
import AmxModC.Forward.ExecuteNative
import AmxModC.Foundation.Numeral
import AmxModC.Format.Justify
import AmxModC.Format.Model
import AmxModC.Format.Render
import AmxModC.Format.Follow
import AmxModC.Format.Buffers
import AmxModC.Format.Overlap
import AmxModC.LogEvent.Scan
import AmxModC.LogEvent.Lines
import AmxModC.Strings.Arguments
import AmxModC.Strings.Model
import AmxModC.Strings.Parse
import AmxModC.Strings.FirstWord
import AmxModC.Strings.Copies
import AmxModC.Strings.Splits
import AmxModC.Strings.Tokens
import AmxModC.Foundation.Occurrence
import AmxModC.Strings.Cells
import AmxModC.Strings.Replace
import AmxModC.Strings.Search
import AmxModC.Strings.Append
import AmxModC.Strings.Trim
import AmxModC.LogEvent.LogUser
import AmxModC.VaultFile.Model
import AmxModC.VaultFile.RoundTrip
import AmxModC.Foundation.Chunks
import AmxModC.TextFile.Lines
import AmxModC.TextFile.Replace
import AmxModC.Cmd.Lists
import AmxModC.Libraries.Registry
import AmxModC.Modules.Overrides
import AmxModC.ResultSet.AtomicResult
import AmxModC.ResultSet.Table
import AmxModC.ResultSet.Answers
import AmxModC.Forward.Handout
import AmxModC.Sql.QueryForwards
import AmxModC.Ham.Data
import AmxModC.Ham.SlotReads
import AmxModC.Ham.Registering
import AmxModC.Ham.Tables
import AmxModC.Fakemeta.Tables
import AmxModC.Fakemeta.Dispatch
import AmxModC.Ham.Config
import AmxModC.Ham.ConfigLines
import AmxModC.Ham.ConfigReading
import AmxModC.Csx.Grenades
import AmxModC.Csx.Counting
import AmxModC.Engine.Command
import AmxModC.Engine.RadiusDamage
import AmxModC.Engine.Lights
import AmxModC.Fun.HitZones
import AmxModC.Foundation.RingQueue
import AmxModC.Compiler.Compact
import AmxModC.Foundation.Bisection
import AmxModC.Compiler.Publics
import AmxModC.Compiler.PublicTable
import AmxModC.Compiler.PublicSearch
import AmxModC.Compiler.States
import AmxModC.Util.Vector
import AmxModC.Compiler.MemFile
import AmxModC.Util.IntToString
import AmxModC.Util.HudMessage
import AmxModC.Compiler.Assembler.Program
import AmxModC.Compiler.Peephole.Kinds
import AmxModC.Compiler.Peephole.Lines
