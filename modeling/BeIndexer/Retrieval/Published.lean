import BeIndexer.Refinement.Runs
import BeIndexer.Retrieval.Collector

/-!
# Published indexes

`BuildIndex` returns the index that the builder works on, and `Reset` gives the builder a new one. What the
builder and the index it gave away still share is the map of fields: every field that the builder gets to
know afterwards is known to the old index, too. The old index holds nothing for such a field, so all it can
do with it is to read the value that a query has for it.
-/

namespace BeIndexer

open Calls

namespace FieldTable

variable {t t' : FieldTable} {f : BEField} {desc : FieldDesc}

end FieldTable

section Retrieval

variable [FloatOps] [AhoMachine] {t t' : FieldTable} {q : Assignments}

variable {σ : Type}

end Retrieval

/-! ### Runs of the builder -/

namespace IndexerBuilder

variable [FloatOps] [Codec] [AhoMachine] {b b' : IndexerBuilder}

end IndexerBuilder

end BeIndexer
