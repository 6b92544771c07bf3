import Mathlib.Tactic.DeriveCountable
import Mathlib.Data.Countable.Basic
import Mathlib.Logic.Equiv.List
import Boru.GroupEncryption.EncryptionState

/-!
# The round trip of a stored group

What the encodings of the store promise (`Codec.Lawful`), and what follows for the two rows of a
group: what was written is what is read.

Lawful codecs exist as soon as the states are countable, and the states of message groups are.

## Main results

* `Persistence.loadGroupState_of_row`, `Persistence.loadGroupRoles_of_row` : the rows of a save
  are read back.
* `Codec.unary_lawful` : a lawful codec for every countable type of states.
-/

namespace Boru.GroupEncryption

open EncryptionState

/-! ### What is promised of the encodings -/

/-- Decoding is the inverse of encoding, a public key is the key of its peer, and the stored form
of a state is told from the state alone: it starts with the version, a state with the length of our
identifier. -/
structure Codec.Lawful {St : Type} (C : Codec St) : Prop where
  state : ∀ {y blob}, C.encodeState y = .ok blob →
    ∀ rest, C.takeState (blob ++ rest) = .ok (y, rest)
  version : ∀ {v blob}, C.encodeVersion v = .ok blob →
    ∀ rest, C.takeVersion (blob ++ rest) = .ok (v, rest)
  roles : ∀ {roles blob}, C.encodeRoles roles = .ok blob → C.decodeRoles blob = .ok roles
  key : ∀ p : PeerId, C.verifyingKey p.toKey = .ok p
  legacy : ∀ {blob}, C.encodeVersion Persistence.groupStateStorageVersion = .ok blob →
    ∀ rest, ∃ e, C.takeState (blob ++ rest) = .error e

namespace Persistence

variable {St : Type} {C : Codec St}

/-- The stored form of a state decodes to the state. -/
theorem decodeGroupStateBlob_encodeEnvelope (hC : C.Lawful) {y : St} {blob : Bytes}
    (h : encodeEnvelope C y = .ok blob) (g : GroupId) : decodeGroupStateBlob C g blob = .ok y := by
  obtain ⟨ver, hv, h⟩ := Prog.except_bind_eq_ok h
  obtain ⟨state, hs, h⟩ := Prog.except_bind_eq_ok h
  cases h
  set hash := C.blake3 (ver ++ state)
  obtain ⟨e, he⟩ := hC.legacy hv (state ++ hash.1)
  have hd : decodeEnvelope C (ver ++ state ++ hash.1) =
      .ok (groupStateStorageVersion, y) := by
    unfold decodeEnvelope
    rw [List.append_assoc, hC.version hv]
    show C.takeState (state ++ hash.1) >>= _ = _
    rw [hC.state hs]
    show (if hash.1.length < 32 then _ else _) = _
    rw [if_neg (by rw [hash.2]; exact lt_irrefl 32)]
    rfl
  have hlen : (ver ++ state ++ hash.1).length = (ver ++ state).length + 32 := by
    rw [List.length_append, hash.2]
  unfold decodeGroupStateBlob
  rw [← List.append_assoc] at he
  simp only [he, hd, hlen, Nat.add_sub_cancel, List.take_left]
  rw [if_neg (by omega), if_neg (by simp [hash]), if_neg (by simp)]

/-- The row of a saved state is read back. -/
theorem loadGroupState_of_row (hC : C.Lawful) {disk : Disk} {db : Database} {g : GroupId} {y : St}
    {blob : Bytes} {ver : ℕ} (hd : disk.readState = none)
    (hr : db.states.lookup g = some ⟨blob, ver⟩) (h : encodeEnvelope C y = .ok blob) :
    loadGroupState C disk db g = .ok y := by
  unfold loadGroupState
  rw [hd, hr]
  exact decodeGroupStateBlob_encodeEnvelope hC h g

theorem decodeSelfId_toKey (hC : C.Lawful) (g : GroupId) (selfId : Option PeerId) :
    decodeSelfId C g (selfId.map fun p => p.toKey.1) = .ok selfId := by
  cases selfId with
  | none => rfl
  | some p =>
    have hkey : Block.ofBytes? 32 p.toKey.1 = some p.toKey := by
      unfold Block.ofBytes?
      rw [dif_pos p.toKey.2]
    simp only [Option.map_some, decodeSelfId, hkey, hC.key]

/-- The row of a saved role mirror is read back. -/
theorem loadGroupRoles_of_row (hC : C.Lawful) {disk : Disk} {db : Database} {g : GroupId}
    {r : Roles} {me : Option PeerId} {blob : Bytes} (hd : disk.readRoles = none)
    (hr : db.roles.lookup g = some ⟨blob, me.map fun p => p.toKey.1⟩)
    (h : C.encodeRoles r = .ok blob) :
    loadGroupRoles C disk db g = .ok (some (r, me)) := by
  unfold loadGroupRoles
  rw [hd, hr]
  show (do let r ← (C.decodeRoles blob).mapError _; _) = _
  rw [hC.roles h]
  rw [decodeSelfId_toKey hC]
  rfl

/-- A save that meets no failure. -/
theorem saveGroupStateAndRoles_ok (db : Database) (g : GroupId) {y : St}
    {r : Roles} {blob rb : Bytes}
    (hb : encodeEnvelope C y = .ok blob) (hr : C.encodeRoles r = .ok rb) (me : Option PeerId) :
    saveGroupStateAndRoles C {} db g y r me (storedVersion db g) none =
      .ok (⟨db.states.insert g ⟨blob, storedVersion db g + 1⟩,
        db.roles.insert g ⟨rb, me.map fun p => p.toKey.1⟩⟩, storedVersion db g + 1) := by
  simp [saveGroupStateAndRoles, access, hb, hr, bind, Except.bind, pure, Except.pure,
    Except.mapError]

end Persistence

/-! ### A lawful codec -/

/-- The bytes of a peer identifier determine it. -/
theorem PeerId.toKey_injective : Function.Injective PeerId.toKey := by
  rintro ⟨a⟩ ⟨b⟩ h
  have hb : ∀ i < 32,
      (a.toNat >>> (8 * (31 - i))) % 256 = (b.toNat >>> (8 * (31 - i))) % 256 := by
    intro i hi
    have hi' := congrArg (fun k : Key => k.1[i]?) h
    simp only [toKey, List.getElem?_map, List.getElem?_range hi, Option.map_some,
      Option.some.injEq] at hi'
    simpa using congrArg UInt8.toNat hi'
  congr 1
  apply BitVec.eq_of_toNat_eq
  apply Nat.eq_of_testBit_eq
  intro j
  by_cases hj : j < 256
  · -- bit `j` is bit `j % 8` of byte `31 - j / 8`
    have hbi : ∀ n : ℕ, n.testBit j = (n >>> (8 * (31 - (31 - j / 8))) % 256).testBit (j % 8) := by
      intro n
      rw [show 256 = 2 ^ 8 from rfl, Nat.testBit_mod_two_pow, Nat.testBit_shiftRight]
      rw [decide_eq_true (Nat.mod_lt j (by decide))]
      congr 1
      omega
    rw [hbi, hbi, hb _ (by omega)]
  · have hl : ∀ x : BitVec 256, x.toNat < 2 ^ j := fun x =>
      lt_of_lt_of_le x.isLt (Nat.pow_le_pow_right (by decide) (by omega))
    rw [Nat.testBit_lt_two_pow (hl a), Nat.testBit_lt_two_pow (hl b)]

namespace Codec

def putNat (n : ℕ) : Bytes := List.replicate n 0 ++ [1]

def takeNat : Bytes → Option (ℕ × Bytes)
  | 0 :: rest => (takeNat rest).map fun p => (p.1 + 1, p.2)
  | 1 :: rest => some (0, rest)
  | _ => none

theorem takeNat_putNat (n : ℕ) (rest : Bytes) : takeNat (putNat n ++ rest) = some (n, rest) := by
  induction n with
  | zero => rfl
  | succ n ih =>
    have hc : putNat (n + 1) ++ rest = 0 :: (putNat n ++ rest) := by
      simp [putNat, List.replicate_succ]
    rw [hc, takeNat, ih]
    rfl

section Numbering

variable (α : Type) [Countable α]

/-- A numbering of a countable type. -/
noncomputable def number : α → ℕ := (exists_injective_nat α).choose

theorem number_injective : Function.Injective (number α) := (exists_injective_nat α).choose_spec

noncomputable def takeNumbered (blob : Bytes) : Except Failure (α × Bytes) :=
  match takeNat blob with
  | none => .error ⟨"not a number"⟩
  | some (n, rest) =>
    match Function.partialInv (number α) n with
    | none => .error ⟨"not the number of an element"⟩
    | some a => .ok (a, rest)

theorem takeNumbered_putNat (a : α) (rest : Bytes) :
    takeNumbered α (putNat (number α a) ++ rest) = .ok (a, rest) := by
  unfold takeNumbered
  simp only [takeNat_putNat, Function.partialInv_left (number_injective α)]

end Numbering

instance countableBitVec (n : ℕ) : Countable (BitVec n) :=
  Function.Injective.countable (f := BitVec.toNat) fun _ _ => BitVec.eq_of_toNat_eq

instance countableUInt8 : Countable UInt8 :=
  Function.Injective.countable (f := UInt8.toNat) fun _ _ => UInt8.toNat_inj.1

instance countableUInt32 : Countable UInt32 :=
  Function.Injective.countable (f := UInt32.toNat) fun _ _ => UInt32.toNat_inj.1

instance {K V : Type} [Countable K] [Countable V] : Countable (HashMap K V) :=
  Function.Injective.countable (f := AList.entries) fun _ _ => AList.ext

deriving instance Countable for PeerId, OpId, MemberRole, ControlMessage
deriving instance Countable for EncryptedGroupContent
deriving instance Countable for EncryptedGroupEnvelope
deriving instance Countable for OpKind, OperationEntry
deriving instance Countable for MembershipState
deriving instance Countable for OrderingState
deriving instance Countable for RatchetSecretState
deriving instance Countable for DecryptionRatchetState
deriving instance Countable for GroupConfig

/-- States and mirrors are written as their numbers.  A version is marked by the byte 2. -/
noncomputable def unary (St : Type) [Countable St] : Codec St where
  encodeState y := .ok (putNat (number St y))
  takeState := takeNumbered St
  encodeVersion v := .ok (2 :: putNat (number UInt32 v))
  takeVersion
    | 2 :: blob => takeNumbered UInt32 blob
    | _ => .error ⟨"not a version"⟩
  encodeRoles roles := .ok (putNat (number Roles roles))
  decodeRoles blob := (takeNumbered Roles blob).map Prod.fst
  verifyingKey key :=
    match Function.partialInv PeerId.toKey key with
    | none => .error ⟨"not the key of a peer"⟩
    | some p => .ok p
  blake3 _ := Block.replicate 32 0

/-- **A lawful codec.** -/
theorem unary_lawful (St : Type) [Countable St] : (unary St).Lawful where
  state := by
    rintro y _ ⟨⟩ rest
    exact takeNumbered_putNat St y rest
  version := by
    rintro v _ ⟨⟩ rest
    exact takeNumbered_putNat UInt32 v rest
  roles := by
    rintro roles _ ⟨⟩
    have ht := takeNumbered_putNat Roles roles []
    rw [List.append_nil] at ht
    show (takeNumbered _ _).map Prod.fst = _
    rw [ht]
    rfl
  key p := by
    show (match Function.partialInv PeerId.toKey p.toKey with
      | none => _
      | some p => _) = _
    rw [Function.partialInv_left PeerId.toKey_injective]
  legacy := by
    rintro _ ⟨⟩ rest
    exact ⟨_, rfl⟩

end Codec

/-! ### Message groups without cryptography -/

instance : Countable (DcgkaState plainSuite) := by
  have : Countable plainSuite.Pki := inferInstanceAs (Countable Unit)
  have : Countable plainSuite.Keys := inferInstanceAs (Countable Unit)
  have : Countable plainSuite.TwoParty := inferInstanceAs (Countable Unit)
  refine Function.Injective.countable (f := fun y : DcgkaState plainSuite =>
    (y.pki, y.myKeys, y.myId, y.nextSeed, y.twoParty, y.memberSecrets, y.ratchet, y.dgm)) ?_
  rintro ⟨⟩ ⟨⟩ h
  simp only [Prod.mk.injEq] at h
  obtain ⟨rfl, rfl, rfl, rfl, rfl, rfl, rfl, rfl⟩ := h
  rfl

instance : Countable (GroupState plainSuite) := by
  refine Function.Injective.countable (f := fun y : GroupState plainSuite =>
    (y.myId, y.dcgka, y.orderer, y.welcome, y.ratchet, y.decryptionRatchet, y.config)) ?_
  rintro ⟨⟩ ⟨⟩ h
  simp only [Prod.mk.injEq] at h
  obtain ⟨rfl, rfl, rfl, rfl, rfl, rfl, rfl⟩ := h
  rfl

namespace EncryptionState

/-- Message groups without cryptography that are stored. -/
noncomputable def storedScheme : GroupScheme :=
  MessageGroup.scheme plainSuite (Codec.unary (GroupState plainSuite))

/-- A new encryption state with an empty database. -/
noncomputable def storedState : EncryptionState storedScheme where
  groups := ∅
  kmgState := ()
  registry := ()
  world := ()
  db := some ⟨∅, ∅⟩
  groupRoles := ∅
  selfIds := ∅
  groupVersions := ∅

end EncryptionState

end Boru.GroupEncryption
