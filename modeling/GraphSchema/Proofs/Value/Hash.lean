import GraphSchema.Proofs.Outcome
import GraphSchema.Store.Items

namespace GraphSchema

open Outcome

namespace Outcome

def fault? {ε α : Type} : Except ε α → Option ε
  | .error e => some e
  | .ok _ => none

theorem fault?_eq_none_iff {ε α : Type} {x : Except ε α} : fault? x = none ↔ Succeeds x := by
  cases x <;> simp [fault?]

end Outcome

-- What of a value goes into its hash: what a number is worth, when a moment is, and of objects
-- which they are. How whole numbers are made of it is left open. Streams and scripts are equal to
-- nothing, so it does not matter which they are.
inductive Digest
  | null
  | number (normal : Decimal)
  | octets (bs : List UInt8)
  | date (d : Date)
  | moment (known : Bool) (instant : Int)
  | text (s : String)
  | progression (size : Nat) (start step : Option Int)
  | tuple (ds : List Digest)
  | stream
  | foreign (id : OutsideId)
  | enumClass (id : OutsideId)
  | enumMember (owner : OutsideId) (name : String)
  | scalar (s : Scalar)
  | nodeKind (k : NodeKind)
  | enumRef (name : String)
  | objectRef (name : String)
  | script
  | object (r : Ref)

-- Empty progressions are all equal, and so are those of one item with the same start.
def Progression.digest (p : Progression) : Digest :=
  .progression p.size (if p.size = 0 then none else some p.start)
    (if p.size ≤ 1 then none else some p.step)

theorem Progression.digest_eq_of_equals {p q : Progression} (h : p.equals q) :
    p.digest = q.digest := by
  simp only [equals, Bool.and_eq_true, Bool.or_eq_true, beq_iff_eq] at h
  obtain ⟨size, h⟩ := h
  rw [digest, digest, size]
  rcases h with h | ⟨start, h | step⟩
  · have none : q.size = 0 := size ▸ h
    simp [none]
  · have one : q.size = 1 := size ▸ h
    simp [one, start]
  · rw [start, step]

theorem Decimal.normalize_eq_of_equals {a b : Decimal} (h : a.equals b) :
    a.normalize = b.normalize := by
  unfold equals at h
  split at h
  case h_1 | h_2 => exact nomatch h
  case h_3 => exact beq_iff_eq.mp h

namespace Value

section

variable (ref : Ref → Except TypeFault Digest)

mutual

def digest : Value → Except TypeFault Digest
  | null => .ok .null
  | bool b => .ok (.number (Decimal.ofInt (if b then 1 else 0)).normalize)
  | int n => .ok (.number (Decimal.ofInt n).normalize)
  | float x => .ok (.number x.toDecimal.normalize)
  | decimal (.notANumber _ true _ _) => .error .signalingHash
  | decimal d => .ok (.number d.normalize)
  | labelled (.decimal (.notANumber _ true _ _)) _ => .error .signalingHash
  | labelled n _ => .ok (.number n.toDecimal.normalize)
  | date d => .ok (.date d)
  | dateTime t => .ok (.moment t.offset.isSome t.instant)
  | text s => .ok (.text s)
  | bytes bs => .ok (.octets bs)
  | byteArray _ => .error (.unhashable "bytearray")
  | progression p => .ok p.digest
  | list _ => .error (.unhashable "list")
  | tuple xs => return .tuple (← digests xs)
  | stream _ => .ok .stream
  | dict _ => .error (.unhashable "dict")
  | foreign id _ => .ok (.foreign id)
  | enumClass id _ _ => .ok (.enumClass id)
  | enumMember owner _ name _ => .ok (.enumMember owner name)
  | scalar s => .ok (.scalar s)
  | nodeKind k => .ok (.nodeKind k)
  | enumRef name _ => .ok (.enumRef name)
  | objectRef name => .ok (.objectRef name)
  | script _ => .ok .script
  | object r => ref r

def digests : List Value → Except TypeFault (List Digest)
  | [] => .ok []
  | x :: xs => return (← digest x) :: (← digests xs)

end

end

variable {ref : Ref → Except TypeFault Digest} {same : Ref → Ref → Bool} {v w : Value}

theorem digest_of_number? {d : Decimal} {x : Digest} (hv : v.number? = some d)
    (hx : digest ref v = .ok x) : x = .number d.normalize := by
  cases v
  case bool | int | float =>
    cases hv
    cases hx
    rfl
  case decimal =>
    cases hv
    cases d
    case finite | infinite =>
      cases hx
      rfl
    case notANumber signaling _ _ =>
      cases signaling
      case false =>
        cases hx
        rfl
      case true => exact nomatch hx
  case labelled n _ =>
    cases hv
    cases n
    case int | float =>
      cases hx
      rfl
    case decimal d =>
      cases d
      case finite | infinite =>
        cases hx
        rfl
      case notANumber signaling _ _ =>
        cases signaling
        case false =>
          cases hx
          rfl
        case true => exact nomatch hx
  all_goals exact nomatch hv

theorem digest_of_octets? {bs : List UInt8} {x : Digest} (hv : v.octets? = some bs)
    (hx : digest ref v = .ok x) : x = .octets bs := by
  cases v
  case bytes =>
    cases hv
    cases hx
    rfl
  case byteArray => exact nomatch hx
  all_goals exact nomatch hv

-- Whether two values that can both be hashed have the same hash.
def SameDigest (ref : Ref → Except TypeFault Digest) (v w : Value) : Prop :=
  ∀ x y, digest ref v = .ok x → digest ref w = .ok y → x = y

theorem sameDigest_of_equalsNumber {d : Decimal} (hd : v.number? = some d)
    (h : equalsNumber d w) : SameDigest ref v w := by
  intro x y hx hy
  have ⟨e, he, h⟩ := (Option.any_eq_true ..).mp h
  rw [digest_of_number? hd hx, digest_of_number? he hy, Decimal.normalize_eq_of_equals h]

theorem sameDigest_of_equalsOctets {bs : List UInt8} (hb : v.octets? = some bs)
    (h : equalsOctets bs w) : SameDigest ref v w := by
  intro x y hx hy
  rw [digest_of_octets? hb hx, digest_of_octets? (beq_iff_eq.mp h) hy]

theorem sameDigest_of_eq (h : digest ref v = digest ref w) : SameDigest ref v w := by
  intro x y hx hy
  exact Except.ok.inj (hx.symm.trans (h.trans hy))

theorem sameDigest_of_identical (h : identical v w) : SameDigest ref v w := by
  unfold identical at h
  split at h
  case h_1 | h_2 =>
    obtain rfl := beq_iff_eq.mp (Bool.and_eq_true_iff.mp h).right
    exact sameDigest_of_eq rfl
  case h_3 =>
    obtain ⟨h, label⟩ := Bool.and_eq_true_iff.mp h
    obtain rfl := beq_iff_eq.mp (Bool.and_eq_true_iff.mp h).right
    obtain rfl := beq_iff_eq.mp label
    exact sameDigest_of_eq rfl
  case h_4 =>
    obtain rfl := beq_iff_eq.mp h
    exact sameDigest_of_eq rfl
  case h_5 => exact absurd h Bool.false_ne_true

-- Objects that count as equal have the same hash.
def Respects (ref : Ref → Except TypeFault Digest) (same : Ref → Ref → Bool) : Prop :=
  ∀ r r', same r r' → SameDigest ref (.object r) (.object r')

-- Equal values other than tuples.
theorem sameDigest_of_equals_single (hs : Respects ref same) (hv : ∀ xs, v ≠ .tuple xs)
    (h : v.equals same w) : SameDigest ref v w := by
  unfold equals at h
  split at h
  case h_2 | h_3 | h_4 | h_5 | h_6 => exact sameDigest_of_equalsNumber rfl h
  case h_7 | h_8 => exact sameDigest_of_equalsOctets rfl h
  case h_10 =>
    simp only [DateTime.equals, Bool.and_eq_true, beq_iff_eq] at h
    exact sameDigest_of_eq (by simp only [digest, h])
  case h_12 => exact sameDigest_of_eq (by simp only [digest, Progression.digest_eq_of_equals h])
  case h_13 | h_15 => exact fun _ _ hx => nomatch hx
  case h_14 => exact absurd rfl (hv _)
  case h_18 =>
    simp only [Bool.and_eq_true, beq_iff_eq] at h
    exact sameDigest_of_eq (by simp only [digest, h])
  case h_23 => exact hs _ _ h
  case h_24 => exact absurd h Bool.false_ne_true
  all_goals
    try obtain rfl := beq_iff_eq.mp h
    exact sameDigest_of_eq rfl

mutual

theorem sameDigest_of_equals (hs : Respects ref same) : (v w : Value) → v.equals same w →
    SameDigest ref v w
  | tuple xs, w => fun h x y hx hy => by
    cases w
    case tuple ys =>
      have ⟨as, ha, hx⟩ := bind_eq_ok.mp hx
      have ⟨bs, hb, hy⟩ := bind_eq_ok.mp hy
      rw [← pure_eq_ok.mp hx, ← pure_eq_ok.mp hy, digests_eq_of_equalsAll hs xs ys h as bs ha hb]
    all_goals exact nomatch h
  | null, _ | bool _, _ | int _, _ | float _, _ | decimal _, _ | date _, _ | dateTime _, _
  | text _, _ | bytes _, _ | byteArray _, _ | progression _, _ | list _, _ | stream _, _ | dict _, _
  | foreign .., _ | enumClass .., _ | labelled .., _ | enumMember .., _ | scalar _, _
  | nodeKind _, _ | enumRef .., _ | objectRef _, _ | script _, _ | object _, _ =>
    sameDigest_of_equals_single hs nofun

theorem digests_eq_of_equalsAll (hs : Respects ref same) : (xs ys : List Value) →
    equalsAll same xs ys → ∀ as bs, digests ref xs = .ok as → digests ref ys = .ok bs → as = bs
  | [], [] => fun _ as bs ha hb => Except.ok.inj (ha.symm.trans hb)
  | x :: xs, y :: ys => fun h as bs ha hb => by
    simp only [equalsAll, Bool.and_eq_true, Bool.or_eq_true] at h
    have ⟨a, hx, ha⟩ := bind_eq_ok.mp ha
    have ⟨as', hxs, ha⟩ := bind_eq_ok.mp ha
    have ⟨b, hy, hb⟩ := bind_eq_ok.mp hb
    have ⟨bs', hys, hb⟩ := bind_eq_ok.mp hb
    have head : a = b := by
      rcases h.left with h | h
      · exact sameDigest_of_identical h a b hx hy
      · exact sameDigest_of_equals hs x y h a b hx hy
    rw [← pure_eq_ok.mp ha, ← pure_eq_ok.mp hb, head,
      digests_eq_of_equalsAll hs xs ys h.right as' bs' hxs hys]
  | [], _ :: _ | _ :: _, [] => nofun

end

-- Items and keys that are found to be the same have the same hash.
theorem sameDigest_of_alike (hs : Respects ref same) (h : v.alike same w) :
    SameDigest ref v w := by
  rcases Bool.or_eq_true_iff.mp h with h | h
  · exact sameDigest_of_identical h
  · exact sameDigest_of_equals hs v w h

-- Hashing fails on the same values as using them for keys does.

section

variable {fault : Ref → Option TypeFault}

mutual

theorem fault?_digest (hr : ∀ r, fault? (ref r) = fault r) :
    (v : Value) → fault? (v.digest ref) = v.keyFault? fault
  | tuple xs => by
    rw [keyFault?, ← fault?_digests hr xs, digest]
    cases digests ref xs <;> rfl
  | decimal d => by
    cases d
    case notANumber signaling _ _ => cases signaling <;> rfl
    all_goals rfl
  | labelled (.decimal d) _ => by
    cases d
    case notANumber signaling _ _ => cases signaling <;> rfl
    all_goals rfl
  | labelled (.int _) _ | labelled (.float _) _ => rfl
  | object r => hr r
  | null | bool _ | int _ | float _ | date _ | dateTime _ | text _ | bytes _ | byteArray _
  | progression _ | list _ | stream _ | dict _ | foreign .. | enumClass .. | enumMember ..
  | scalar _ | nodeKind _ | enumRef .. | objectRef _ | script _ => rfl

theorem fault?_digests (hr : ∀ r, fault? (ref r) = fault r) :
    (xs : List Value) → fault? (digests ref xs) = keyFaults? fault xs
  | [] => rfl
  | x :: xs => by
    rw [keyFaults?, ← fault?_digest hr x, ← fault?_digests hr xs, digests]
    cases digest ref x
    case error => rfl
    case ok => cases digests ref xs <;> rfl

end

end

end Value

namespace Store

-- The policy of an invalidation and its field name.
def pair (σ : Store) (i : InvalidationId) : Value :=
  let a := σ.invalidations.getD i default
  .tuple [.text a.policyName, σ.settle a.fieldName]

-- An invalidation is hashed like this pair, other objects by what they are.
def digestAt (σ : Store) : Nat → Ref → Except TypeFault Digest
  | n + 1, .invalidation i => (σ.pair i).digest (σ.digestAt n)
  | _, r => .ok (.object r)

-- The hash of a value, given how one is made of what goes into it.
def hash (σ : Store) (f : Digest → Int) (v : Value) : Except TypeFault Int :=
  ((σ.settle v).digest (σ.digestAt σ.invalidations.size)).map f

variable {σ : Store} {n : Nat} {v w : Value}

theorem sameAt_succ_cases {r r' : Ref} (h : σ.sameAt (n + 1) r r') :
    r = r' ∨ ∃ i j, r = .invalidation i ∧ r' = .invalidation j ∧
      (σ.pair i).equals (σ.sameAt n) (σ.pair j) := by
  unfold sameAt at h
  split at h
  case h_1 k i j e =>
    cases e
    rw [Bool.and_eq_true] at h
    have pairs : (σ.pair i).equals (σ.sameAt n) (σ.pair j) := by
      simp only [pair, Value.equals, Value.equalsAll, h, Bool.or_true, Bool.and_self]
    exact .inr ⟨i, j, rfl, rfl, pairs⟩
  case h_2 => exact .inl (beq_iff_eq.mp h)

theorem respects_sameAt : Value.Respects (σ.digestAt n) (σ.sameAt n) := by
  induction n
  case zero =>
    intro r r' h
    obtain rfl : r = r' := beq_iff_eq.mp h
    exact Value.sameDigest_of_eq rfl
  case succ n hi =>
    intro r r' h
    rcases sameAt_succ_cases h with rfl | ⟨i, j, rfl, rfl, pairs⟩
    · exact Value.sameDigest_of_eq rfl
    · exact Value.sameDigest_of_equals hi _ _ pairs

-- What is found to be the same has the same hash.
theorem hash_eq_of_alike (h : σ.alike v w) {f : Digest → Int} {x y : Int}
    (hx : σ.hash f v = .ok x) (hy : σ.hash f w = .ok y) : x = y := by
  have ⟨a, ha, hx⟩ := map_eq_ok.mp hx
  have ⟨b, hb, hy⟩ := map_eq_ok.mp hy
  rw [← hx, ← hy, Value.sameDigest_of_alike respects_sameAt h a b ha hb]

theorem fault?_digestAt (r : Ref) : fault? (σ.digestAt n r) = σ.keyFaultAt n r := by
  induction n generalizing r
  case zero => rfl
  case succ n hi =>
    cases r
    case invalidation i =>
      rw [digestAt, Value.fault?_digest hi]
      exact Option.or_none
    all_goals rfl

-- What cannot be hashed is what cannot be a key, for the same reason.
theorem fault?_hash (f : Digest → Int) : fault? (σ.hash f v) = σ.keyFault? v := by
  rw [keyFault?, ← Value.fault?_digest fault?_digestAt, hash]
  cases (σ.settle v).digest _ <;> rfl

end Store

end GraphSchema
