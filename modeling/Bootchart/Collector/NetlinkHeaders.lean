import Bootchart.Library.LittleEndian
import Bootchart.Library.Records

/-!
# Headers of netlink messages and attributes

Messages and attributes are read from a memory that gives each address a byte. The numbers are
little-endian.
-/

namespace Bootchart
namespace Collector

open Library (align4 word word_lt Layout)

/-! ## Messages -/

/-- `NLMSG_HDRLEN`, also the size of `struct nlmsghdr`. -/
def nlmsgHdrlen : Nat := 16

/-- `NLMSG_NOOP`. -/
def nlmsgNoop : Nat := 1

/-- `NLMSG_ERROR`. -/
def nlmsgError : Nat := 2

/-- `NLMSG_DONE`. -/
def nlmsgDone : Nat := 3

/-- `NLMSG_OVERRUN`. -/
def nlmsgOverrun : Nat := 4

/-- `NLMSG_ALIGN`, in 32 bits. -/
def nlmsgAlign (len : Nat) : Nat := (len + 3) % 2 ^ 32 / 4 * 4

section Message

variable (memory : Nat → UInt8)

/-- The field `nlmsg_len` of a header. -/
def nlmsgLen (nlh : Nat) : Nat := word memory nlh 4

/-- The field `nlmsg_type` of a header. -/
def nlmsgType (nlh : Nat) : Nat := word memory (nlh + 4) 2

/-- `NLMSG_OK`. -/
def nlmsgOk (nlh len : Nat) : Bool :=
  nlmsgHdrlen ≤ len && (nlmsgHdrlen ≤ nlmsgLen memory nlh && nlmsgLen memory nlh ≤ len)

/-- Messages in a row. -/
def nlmsgLayout : Layout where
  header := nlmsgHdrlen
  header_pos := by decide
  lengthAt := nlmsgLen memory

/-- `NLMSG_OK` says that a message lies in the bytes left. -/
theorem nlmsgOk_iff {nlh stop : Nat} (within : nlh ≤ stop) :
    nlmsgOk memory nlh (stop - nlh) = true ↔ (nlmsgLayout memory).IsRecord stop nlh := by
  rw [nlmsgOk, Bool.and_eq_true, Bool.and_eq_true, decide_eq_true_eq, decide_eq_true_eq,
    decide_eq_true_eq]
  change _ ↔ nlmsgHdrlen ≤ nlmsgLen memory nlh ∧ nlh + nlmsgLen memory nlh ≤ stop
  omega

/-- The aligned length of a message that lies in a buffer has 32 bits. -/
theorem nlmsgAlign_eq {len : Nat} (small : len < 2 ^ 32 - 3) : nlmsgAlign len = align4 len := by
  rw [nlmsgAlign, align4, Nat.mod_eq_of_lt (by omega)]

end Message

/-! ## Attributes -/

/-- `NLA_HDRLEN`, also the size of `struct nlattr`. -/
def nlaHdrlen : Nat := 4

/-- `NLA_ALIGN`. -/
def nlaAlign (len : Nat) : Nat := align4 len

section Attribute

variable (memory : Nat → UInt8)

/-- The field `nla_len` of a header. -/
def nlaLen (na : Nat) : Nat := word memory na 2

/-- The field `nla_type` of a header. -/
def nlaType (na : Nat) : Nat := word memory (na + 2) 2

/-- Attributes in a row. -/
def nlaLayout : Layout where
  header := nlaHdrlen
  header_pos := by decide
  lengthAt := nlaLen memory

end Attribute

end Collector
end Bootchart
