import AuthScript.Machine.Stack
import AuthScript.Proofs.NumberWord

/-!
# Bounds on the stack

No operation on the stack makes a long item out of short ones, if items may be as long as a
digest: what it computes is a number, a digest, a truth value or no longer than what was there,
and where two items are joined or one is widened, the length is checked first. An operation that
succeeds adds three items at most; one that fails has added none.
-/

namespace AuthScript

namespace ScriptNumber

theorem length_minimize_le (b : Bytes) : (minimize b).length ≤ b.length := by
  unfold minimize
  split
  · exact Nat.zero_le _
  · rename_i top below hb
    have total : b.length = below.length + 1 := by
      rw [← List.length_reverse, hb, List.length_cons]
    split
    · exact Nat.le_refl _
    · have dropped : (below.dropWhile (· = 0)).length ≤ below.length :=
        (List.dropWhile_sublist _).length_le
      split
      · exact Nat.zero_le _
      · rename_i high rest hrest
        rw [hrest, List.length_cons] at dropped
        split
        · simp only [List.length_reverse, List.length_cons]
          omega
        · simp only [List.length_reverse, List.length_cons]
          omega

end ScriptNumber

namespace Machine

open Opcode

namespace Stack

/-! ## What operations compute -/

theorem length_widened (n : Nat) (b : Bytes) : (widened n b).length = max n b.length := by
  unfold widened
  split
  · omega
  · split
    · rename_i hb
      obtain rfl := List.reverse_eq_nil_iff.1 hb
      simp only [List.length_append, List.length_replicate, List.length_singleton, List.length_nil]
      omega
    · rename_i top below hb
      have total : b.length = below.length + 1 := by
        rw [← List.length_reverse, hb, List.length_cons]
      simp only [List.length_append, List.length_reverse, List.length_cons, List.length_replicate,
        List.length_nil]
      omega

theorem length_ofBool_le (b : Bool) : (ofBool b).length ≤ 1 := by cases b <;> decide

theorem length_digestOf_le (d : Digest) (b : Bytes) : (digestOf d b).length ≤ 32 := by
  cases d <;> simp [digestOf]

theorem exactly_error {failure e : Error} {n : Int64} {meant : Int}
    (h : exactly failure n meant = .error e) : failure = e := by
  unfold exactly at h
  split at h
  · cases h
  · exact Except.error.inj h

theorem quotient_error {a b : Int64} {e : Error} (h : quotient a b = .error e) :
    .unknown = e := by
  unfold quotient at h
  split at h
  · exact Except.error.inj h
  · exact exactly_error h

theorem remainder_error {a b : Int64} {e : Error} (h : remainder a b = .error e) :
    .unknown = e := by
  unfold remainder at h
  cases divided : quotient a b with
  | error f =>
      rw [divided] at h
      rw [quotient_error divided]
      exact Except.error.inj h
  | ok q =>
      rw [divided] at h
      exact exactly_error h

theorem unaryResult_error {op : Unary} {n : Int64} {e : Error}
    (h : unaryResult op n = .error e) : e ≠ .stackSize := by
  cases op with
  | increment | decrement | negate =>
      rw [← exactly_error h]
      decide
  | abs =>
      simp only [unaryResult] at h
      split at h
      · rw [← exactly_error h]
        decide
      · cases h
  | not | notZero => cases h

theorem binaryResult_error {op : Binary} {a b : Int64} {e : Error}
    (h : binaryResult op a b = .error e) : e ≠ .stackSize := by
  cases op with
  | add | sub | mul =>
      rw [← exactly_error h]
      decide
  | div =>
      simp only [binaryResult] at h
      split at h
      · cases h
        decide
      · rw [← quotient_error h]
        decide
  | mod =>
      simp only [binaryResult] at h
      split at h
      · cases h
        decide
      · rw [← remainder_error h]
        decide
  | _ => cases h

/-! ## What is asked of an operation -/

/-- At most `count` items, each of at most `limit` bytes. -/
structure Within (limit count : Nat) (s : Stack) : Prop where
  items : ∀ item ∈ s, item.length ≤ limit
  length : s.length ≤ count

/-- A failure that leaves a stack within bounds, and is not about the number of items. -/
def Spared (limit count : Nat) (failure : Error × Stack) : Prop :=
  failure.1 ≠ .stackSize ∧ failure.2.Within limit count

end Stack

/-- What holds of the failure or of the result of a computation. -/
def Ends {ε α : Type} (failure : ε → Prop) (result : α → Prop) : Except ε α → Prop
  | .error e => failure e
  | .ok a => result a

namespace Ends

variable {ε α β : Type} {failure failure' : ε → Prop} {r : Except ε α}

theorem bind {first : α → Prop} {second : β → Prop} {f : α → Except ε β}
    (h : Ends failure first r) (next : ∀ a, first a → Ends failure second (f a)) :
    Ends failure second (r.bind f) := by
  cases r with
  | error e => exact h
  | ok a => exact next a h

theorem mono {result result' : α → Prop} (h : Ends failure result r)
    (failures : ∀ e, failure e → failure' e) (results : ∀ a, result a → result' a) :
    Ends failure' result' r := by
  cases r with
  | error e => exact failures e h
  | ok a => exact results a h

end Ends

namespace Stack

/-- An operation that leaves a stack within bounds when it fails, and with at most three more
items when it does not. -/
abbrev Bounded (limit count : Nat) (r : Effect Stack) : Prop :=
  Ends (Spared limit count) (Within limit (count + 3)) r

variable {limit count : Nat} {s : Stack} {item : Bytes}

namespace Within

theorem mono {count' : Nat} (h : Within limit count s) (le : count ≤ count') :
    Within limit count' s := ⟨h.items, Nat.le_trans h.length le⟩

theorem push (h : Within limit count s) (top : item.length ≤ limit) :
    Within limit (count + 1) (item :: s) :=
  ⟨List.forall_mem_cons.2 ⟨top, h.items⟩, Nat.succ_le_succ h.length⟩

theorem top (h : Within limit count (item :: s)) : item.length ≤ limit :=
  h.items item List.mem_cons_self

theorem below (h : Within limit count (item :: s)) : Within limit count s :=
  ⟨fun a ha => h.items a (List.mem_cons_of_mem _ ha), Nat.le_of_succ_le h.length⟩

/-- Another item in the place of the top one. -/
theorem replace {item' : Bytes} (h : Within limit count (item :: s))
    (top : item'.length ≤ limit) : Within limit count (item' :: s) :=
  ⟨List.forall_mem_cons.2 ⟨top, h.below.items⟩, h.length⟩

end Within

/-! ## Operations -/

/-- Rearranging gives no item that was not there, and three more of them at most. -/
theorem shuffle_ends (op : Shuffle) (s : Stack) :
    Ends (fun failure => failure = (.invalidStackOperation, s))
      (fun t => t ⊆ s ∧ t.length ≤ s.length + 3) (s.shuffle op) := by
  unfold shuffle
  split
  case h_14 => rfl
  all_goals
    constructor
    · intro item
      simp only [List.mem_cons]
      tauto
    · simp only [List.length_cons]
      omega

section

variable (h : s.Within limit count)

include h

theorem spared {e : Error} (other : e ≠ .stackSize) : Spared limit count (e, s) := ⟨other, h⟩

/-- The failure of an operation that finds too few items. -/
theorem spared_invalid : Spared limit count (.invalidStackOperation, s) := spared h (by decide)

theorem bounded_of_within : Bounded limit count (.ok s) := h.mono (by omega)

theorem push_bounded (top : item.length ≤ limit) : Bounded limit count (.ok (item :: s)) :=
  (h.push top).mono (by omega)

theorem popNumber_ends :
    Ends (Spared limit count) (fun r => r.2.Within limit count) s.popNumber := by
  unfold popNumber
  split
  · exact spared h (by decide)
  · split
    · exact h.below
    · exact spared h (by decide)

theorem require_ends (n : Nat) :
    Ends (Spared limit count) (fun _ => True) (s.require n) := by
  unfold require
  split
  · exact spared_invalid h
  · trivial

theorem popTwo_ends :
    Ends (Spared limit count) (fun r => r.2.2.Within limit count) s.popTwo := by
  refine (require_ends h 2).bind fun _ _ => ?_
  refine (popNumber_ends h).bind fun _ hbelow => ?_
  exact (popNumber_ends hbelow).bind fun _ hrest => hrest

theorem shuffle_bounded (op : Shuffle) : Bounded limit count (s.shuffle op) := by
  refine (shuffle_ends op s).mono ?_ ?_
  · rintro failure rfl
    exact spared_invalid h
  · rintro t ⟨same, length⟩
    have := h.length
    exact ⟨fun item hitem => h.items item (same hitem), by omega⟩

theorem select_ends :
    Ends (Spared limit count) (fun r => r.2.1.length ≤ limit ∧ r.2.2.Within limit count)
      s.select := by
  refine (popNumber_ends h).bind ?_
  rintro ⟨n, below⟩ hbelow
  dsimp only
  split
  · rename_i item found
    split at found
    · exact ⟨hbelow.items item (List.mem_of_getElem? found), hbelow⟩
    · cases found
  · exact spared_invalid hbelow

theorem pick_bounded : Bounded limit count s.pick := by
  refine (select_ends h).bind ?_
  rintro ⟨n, item, below⟩ ⟨short, hbelow⟩
  exact push_bounded hbelow short

theorem roll_bounded : Bounded limit count s.roll := by
  refine (select_ends h).bind ?_
  rintro ⟨n, item, below⟩ ⟨short, hbelow⟩
  have rest : Within limit count (below.eraseIdx n) :=
    ⟨fun a ha => hbelow.items a (List.mem_of_mem_eraseIdx ha),
      Nat.le_trans (List.length_eraseIdx_le _ _) hbelow.length⟩
  exact push_bounded rest short

theorem cat_bounded : Bounded limit count (s.cat limit) := by
  unfold cat
  split
  · split
    · exact spared h (by decide)
    · rename_i fits
      refine bounded_of_within (h.below.replace ?_)
      rw [List.length_append]
      omega
  · exact spared_invalid h

theorem split_bounded : Bounded limit count s.split := by
  refine (popNumber_ends h).bind ?_
  rintro ⟨n, below⟩ hbelow
  cases below with
  | nil => exact spared_invalid hbelow
  | cons item rest =>
      show Ends _ _ (if _ then _ else _)
      split
      · exact spared hbelow (by decide)
      · have first : (item.take n.toInt.toNat).length ≤ limit :=
          Nat.le_trans (List.length_take_le' _ _) hbelow.top
        have second : (item.drop n.toInt.toNat).length ≤ limit := by
          have := hbelow.top
          rw [List.length_drop]
          omega
        exact push_bounded (hbelow.replace first) second

theorem widen_bounded : Bounded limit count (s.widen limit) := by
  refine (popNumber_ends h).bind ?_
  rintro ⟨n, below⟩ hbelow
  show Ends _ _ (if _ then _ else _)
  split
  · exact spared hbelow (by decide)
  · rename_i range
    cases below with
    | nil => exact spared_invalid hbelow
    | cons item rest =>
        have short : (ScriptNumber.minimize item).length ≤ limit :=
          Nat.le_trans (ScriptNumber.length_minimize_le item) hbelow.top
        show Ends _ _ (if _ then _ else _)
        split
        · exact spared (hbelow.replace short) (by decide)
        · refine bounded_of_within (hbelow.replace ?_)
          rw [length_widened]
          omega

theorem narrow_bounded : Bounded limit count s.narrow := by
  unfold narrow
  split
  · exact spared_invalid h
  · rename_i item rest
    have short : (ScriptNumber.minimize item).length ≤ limit :=
      Nat.le_trans (ScriptNumber.length_minimize_le item) h.top
    show Ends _ _ (if _ then _ else _)
    split
    · exact spared (h.replace short) (by decide)
    · exact bounded_of_within (h.replace short)

theorem bitwise_bounded (op : Bitwise) : Bounded limit count (s.bitwise op) := by
  unfold bitwise
  split
  · split
    · exact spared h (by decide)
    · refine bounded_of_within (h.below.replace ?_)
      rw [List.length_zipWith]
      have := h.top
      omega
  · exact spared_invalid h

theorem numEqualVerify_bounded : Bounded limit count s.numEqualVerify := by
  refine (popTwo_ends h).bind ?_
  rintro ⟨a, b, rest⟩ hrest
  show Ends _ _ (if _ then _ else _)
  split
  · exact bounded_of_within hrest
  · exact spared hrest (by decide)

theorem verify_bounded : Bounded limit count s.verify := by
  unfold verify
  split
  · exact spared_invalid h
  · split
    · exact bounded_of_within h.below
    · exact spared h (by decide)

theorem mapTop_bounded {f : Bytes → Bytes} (shorter : ∀ b, (f b).length ≤ b.length) :
    Bounded limit count (s.mapTop f) := by
  unfold mapTop
  split
  · exact spared_invalid h
  · exact bounded_of_within (h.replace (Nat.le_trans (shorter _) h.top))

theorem aboveTop_bounded {f : Bytes → Option Bytes}
    (shorter : ∀ b, ∀ a ∈ f b, a.length ≤ b.length) : Bounded limit count (s.aboveTop f) := by
  unfold aboveTop
  split
  · exact spared_invalid h
  · rename_i item rest
    cases hf : f item with
    | none => exact bounded_of_within h
    | some a => exact push_bounded h (Nat.le_trans (shorter item a hf) h.top)

/-! Numbers, truth values and digests are pushed whatever the items were. -/

section

variable (large : 32 ≤ limit)

include large

theorem pushNumber_bounded {n : Int64} : Bounded limit count (pushNumber n s) := by
  unfold pushNumber
  split
  · exact spared h (by decide)
  · have short := ScriptNumber.length_encodeWord_le n
    exact push_bounded h (by omega)

theorem pushResult_bounded {r : Except Error Int64}
    (other : ∀ e, r = .error e → e ≠ .stackSize) : Bounded limit count (pushResult r s) := by
  cases r with
  | ok n => exact pushNumber_bounded h large
  | error e => exact spared h (other e rfl)

theorem unary_bounded (op : Unary) : Bounded limit count (s.unary op) :=
  (popNumber_ends h).bind fun _ hrest =>
    pushResult_bounded hrest large fun _ => unaryResult_error

theorem binary_bounded (op : Binary) : Bounded limit count (s.binary op) :=
  (popTwo_ends h).bind fun _ hrest =>
    pushResult_bounded hrest large fun _ => binaryResult_error

theorem within_bounded : Bounded limit count s.within := by
  refine (require_ends h 3).bind fun _ _ => ?_
  refine (popNumber_ends h).bind fun _ hc => ?_
  refine (popNumber_ends hc).bind fun _ hb => ?_
  exact (popNumber_ends hb).bind fun _ ha => pushNumber_bounded ha large

theorem equal_bounded (verify : Bool) : Bounded limit count (s.equal verify) := by
  unfold equal
  split
  · rename_i b a rest
    split
    · split
      · exact bounded_of_within h.below.below
      · exact spared h.below.below (by decide)
    · refine bounded_of_within (h.below.replace ?_)
      have := length_ofBool_le (decide (a = b))
      omega
  · exact spared_invalid h

theorem digest_bounded (d : Digest) : Bounded limit count (s.digest d) := by
  unfold digest
  split
  · exact spared_invalid h
  · exact bounded_of_within (h.replace (Nat.le_trans (length_digestOf_le d _) large))

theorem checkDataSig_bounded (verify : Bool) : Bounded limit count (s.checkDataSig verify) := by
  unfold checkDataSig
  split
  · split
    · exact spared h (by decide)
    · split
      · exact spared h (by decide)
      · rename_i publicKey message signature rest _ _
        show Ends _ _ (if _ then _ else _)
        split
        · split
          · exact bounded_of_within h.below.below.below
          · exact spared h.below.below.below (by decide)
        · refine bounded_of_within (h.below.below.replace ?_)
          have := length_ofBool_le (dataSigHolds signature message publicKey)
          omega
  · exact spared_invalid h

end

end

end Stack

end Machine

end AuthScript
