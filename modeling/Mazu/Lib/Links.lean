import Mathlib.Logic.Function.Basic

/-!
# Intrusive circular lists

The doubly-linked lists of `include/mazu/list.h`, with the nodes named by an index type instead of
an address. A head is a node like any other; a node that points at itself is unlinked.
-/

namespace Mazu

open Function

/-- The `next` and `prev` pointers of every node. -/
structure Links (ι : Type*) where
  next : ι → ι
  prev : ι → ι

namespace Links

variable {ι : Type*} [DecidableEq ι]

/-- Every node unlinked. -/
def unlinked : Links ι := ⟨id, id⟩

/-- `list_init`: make `x` an empty self-loop. -/
def init (l : Links ι) (x : ι) : Links ι :=
  ⟨update l.next x x, update l.prev x x⟩

/-- `list_add`: insert `node` immediately after `head`. The four stores are in the source's order,
so that a later one sees the earlier ones. -/
def add (l : Links ι) (head node : ι) : Links ι :=
  let next := update l.next node (l.next head)
  let prev := update l.prev node head
  ⟨update next head node, update prev (next head) node⟩

/-- `list_del_init`: unlink `node` and make it an empty self-loop. -/
def delInit (l : Links ι) (node : ι) : Links ι :=
  let next := update l.next (l.prev node) (l.next node)
  let prev := update l.prev (next node) (l.prev node)
  init ⟨next, prev⟩ node

/-- `list_empty`, on a head, or the test that a node is not linked. -/
def isEmpty (l : Links ι) (x : ι) : Bool := decide (l.next x = x)

end Links

end Mazu
