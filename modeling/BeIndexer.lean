import BeIndexer.Lib.MachineInt
import BeIndexer.Lib.Search
import BeIndexer.Lib.Leapfrog
import BeIndexer.Lib.Tiling
import BeIndexer.Lib.SegmentTree
import BeIndexer.Lib.Words
import BeIndexer.Go
import BeIndexer.Parser
import BeIndexer.IdTypes
import BeIndexer.Scanner
import BeIndexer.Scanner.Skips
import BeIndexer.KMatch
import BeIndexer.KMatch.Rounds
import BeIndexer.Document
import BeIndexer.Holder.RangeIdx
import BeIndexer.Holder.Range
import BeIndexer.Holder.OptimizedRange
import BeIndexer.Holder.RangeTree
import BeIndexer.Holder.Codec
import BeIndexer.Holder.RangeCompare
import BeIndexer.Holder.RangeInputs
import BeIndexer.Holder.RangeMeaning
import BeIndexer.Holder.RangeEncoding
import BeIndexer.Holder.Keyword
import BeIndexer.Holder.Runes
import BeIndexer.Holder.KeywordSearch
import BeIndexer.Holder.Entries
import BeIndexer.Lib.Calls
import BeIndexer.Index
import BeIndexer.Builder
import BeIndexer.Store
import BeIndexer.Store.Reorder
import BeIndexer.Store.Prepare
import BeIndexer.Refinement.Container
import BeIndexer.Refinement.Build
import BeIndexer.Refinement.Frame
import BeIndexer.Refinement.Restore
import BeIndexer.Refinement.Compile
import BeIndexer.Refinement.Runs
import BeIndexer.Refinement.Holders
import BeIndexer.Atomicity
import BeIndexer.Retrieval.Matching
import BeIndexer.Retrieval.Cursors
import BeIndexer.Retrieval.Hits
import BeIndexer.Retrieval.Satisfied
import BeIndexer.Retrieval.Exact
import BeIndexer.Retrieval.Versions
import BeIndexer.Retrieval.Safety
import BeIndexer.Retrieval.Agreement
import BeIndexer.Retrieval.Incremental
import BeIndexer.Retrieval.Meaning
import BeIndexer.Retrieval.Collector
import BeIndexer.Retrieval.Concurrent
import BeIndexer.Cache.PartialRestore
import BeIndexer.Cache.Schema
import BeIndexer.Cache.Capture
import BeIndexer.Cache.Roundtrip
import BeIndexer.Cache.Transparency
import BeIndexer.Roaring.Parsers
import BeIndexer.Roaring.Index
import BeIndexer.Roaring.Encode
import BeIndexer.Roaring.Scan
import BeIndexer.Roaring.Exact
import BeIndexer.Roaring.Safety
import BeIndexer.Roaring.Values
import BeIndexer.Roaring.GeoCodes
import BeIndexer.Roaring.Keywords
import BeIndexer.Roaring.Hints
import BeIndexer.Roaring.DocIDs
import BeIndexer.Roaring.Concurrent
import BeIndexer.Roaring.Engines
import BeIndexer.Roaring.Shelves
import BeIndexer.Roaring.Live
import BeIndexer.Roaring.Sessions
import BeIndexer.Retrieval.Published
