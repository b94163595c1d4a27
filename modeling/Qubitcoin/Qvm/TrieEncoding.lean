import Qubitcoin.Library.PrefixCode
import Qubitcoin.Qvm.TrieMap

/-! The encoding of nodes is read back in one way only: the paths, the byte strings of an RLP list,
and, as long as the hash does not collide on the nodes, the whole trie. -/

namespace Qubitcoin.Qvm

section Nibbles

/-- The nibbles that `compactEncode` writes as bytes. -/
def flagged (nibbles : List Nibble) (isLeaf : Bool) : List Nibble :=
  let flag : Nibble := if isLeaf then 2 else 0
  if nibbles.length % 2 = 1 then (flag + 1) :: nibbles else flag :: 0 :: nibbles

theorem compactEncode_eq (nibbles : List Nibble) (isLeaf : Bool) :
    compactEncode nibbles isLeaf = nibblesToBytes (flagged nibbles isLeaf) := by
  rw [compactEncode, flagged]
  split <;> rfl

theorem bytesToNibbles_nibblesToBytes {nibbles : List Nibble} (h : nibbles.length % 2 = 0) :
    bytesToNibbles (nibblesToBytes nibbles) = nibbles := by
  induction nibbles using nibblesToBytes.induct with
  | case1 high low nibbles ih =>
    rw [List.length_cons, List.length_cons] at h
    have hbyte : (UInt8.ofNat (16 * high + low)).toNat = 16 * high.val + low.val := by
      rw [UInt8.toNat_ofNat']
      omega
    have hhigh : Fin.ofNat 16 ((16 * high.val + low.val) / 16) = high := by
      ext
      simp only [Fin.ofNat]
      omega
    have hlow : Fin.ofNat 16 (16 * high.val + low.val) = low := by
      ext
      simp only [Fin.ofNat]
      omega
    rw [nibblesToBytes, bytesToNibbles, List.flatMap_cons, hbyte, hhigh, hlow]
    change high :: low :: bytesToNibbles (nibblesToBytes nibbles) = _
    rw [ih (by omega)]
  | case2 nibbles hshort =>
    match nibbles, hshort, h with
    | [], _, _ => rfl
    | [_], _, h => simp at h
    | high :: low :: rest, hshort, _ => exact absurd rfl (hshort high low rest)

theorem length_flagged (nibbles : List Nibble) (isLeaf : Bool) :
    (flagged nibbles isLeaf).length % 2 = 0 := by
  rw [flagged]
  split
  · rw [List.length_cons]
    omega
  · rw [List.length_cons, List.length_cons]
    omega

theorem flagged_inj {p q : List Nibble} {a b : Bool} (h : flagged p a = flagged q b) :
    p = q ∧ a = b := by
  cases a <;> cases b <;> by_cases hp : p.length % 2 = 1 <;> by_cases hq : q.length % 2 = 1 <;>
    simp [flagged, hp, hq] at h <;> exact ⟨h, rfl⟩

theorem compactEncode_inj {p q : List Nibble} {a b : Bool}
    (h : compactEncode p a = compactEncode q b) : p = q ∧ a = b := by
  rw [compactEncode_eq, compactEncode_eq] at h
  apply flagged_inj
  rw [← bytesToNibbles_nibblesToBytes (length_flagged p a), h,
    bytesToNibbles_nibblesToBytes (length_flagged q b)]

theorem length_nibblesToBytes (nibbles : List Nibble) :
    (nibblesToBytes nibbles).length = nibbles.length / 2 := by
  induction nibbles using nibblesToBytes.induct with
  | case1 high low nibbles ih =>
    rw [nibblesToBytes, List.length_cons, ih, List.length_cons, List.length_cons]
    omega
  | case2 nibbles hshort =>
    match nibbles, hshort with
    | [], _ => rfl
    | [_], _ => simp [nibblesToBytes]
    | high :: low :: rest, hshort => exact absurd rfl (hshort high low rest)

theorem length_compactEncode (nibbles : List Nibble) (isLeaf : Bool) :
    (compactEncode nibbles isLeaf).length = nibbles.length / 2 + 1 := by
  rw [compactEncode_eq, length_nibblesToBytes, flagged]
  split
  · rw [List.length_cons]
    omega
  · rw [List.length_cons, List.length_cons]
    omega

theorem bytesToNibbles_injective : Function.Injective bytesToNibbles := by
  intro as bs h
  induction as generalizing bs with
  | nil =>
    cases bs with
    | nil => rfl
    | cons b bs => cases h
  | cons a as ih =>
    cases bs with
    | nil => cases h
    | cons b bs =>
      change _ :: _ :: bytesToNibbles as = _ :: _ :: bytesToNibbles bs at h
      rw [List.cons.injEq, List.cons.injEq, Fin.ext_iff, Fin.ext_iff] at h
      obtain ⟨hhigh, hlow, hrest⟩ := h
      have ha := a.toNat_lt
      have hb := b.toNat_lt
      simp only [Fin.ofNat] at hhigh hlow
      rw [ih hrest, UInt8.toNat_inj.mp (show a.toNat = b.toNat by omega)]

theorem length_bytesToNibbles (data : Bytes) : (bytesToNibbles data).length = 2 * data.length := by
  induction data with
  | nil => rfl
  | cons b data ih =>
    change (_ :: _ :: bytesToNibbles data).length = _
    rw [List.length_cons, List.length_cons, ih, List.length_cons]
    ring

end Nibbles

section Rlp

theorem ofDigits_encodeLength (length : ℕ) :
    Nat.ofDigits 256 ((encodeLength length).reverse.map UInt8.toNat) = length := by
  unfold encodeLength
  split
  · next hzero =>
    rw [hzero]
    rfl
  · have hdigit : ∀ d ∈ Nat.digits 256 length, (UInt8.toNat ∘ UInt8.ofNat) d = d := by
      intro d hd
      have hlt := Nat.digits_lt_base (by norm_num : 1 < 256) hd
      rw [Function.comp_apply, UInt8.toNat_ofNat']
      omega
    rw [List.reverse_reverse, List.map_map, List.map_congr_left hdigit, List.map_id',
      Nat.ofDigits_digits]

theorem encodeLength_injective : Function.Injective encodeLength :=
  by
  intro m n h
  rw [← ofDigits_encodeLength m, h, ofDigits_encodeLength]

theorem length_encodeLength_pos (length : ℕ) : 0 < (encodeLength length).length := by
  unfold encodeLength
  split
  · exact Nat.one_pos
  · next hne => simpa [List.length_pos_iff, Nat.digits_eq_nil_iff_eq_zero] using hne

theorem length_encodeLength_le {m n : ℕ} (h : m ≤ n) :
    (encodeLength m).length ≤ (encodeLength n).length := by
  by_cases hm : m = 0
  · rw [hm]
    exact length_encodeLength_pos n
  · have hn : n ≠ 0 := by omega
    simp only [encodeLength, hm, hn, if_false, List.length_reverse, List.length_map]
    exact Nat.le_length_digits_le 256 m n h

/-- Eight bytes hold the length. -/
theorem length_encodeLength_le_eight {n : ℕ} (h : n < 2 ^ 64) : (encodeLength n).length ≤ 8 := by
  unfold encodeLength
  split
  · norm_num
  · rw [List.length_reverse, List.length_map, Nat.digits_length_le_iff (by norm_num)]
    exact h

/-- How the encoding of a byte string begins: with itself, with its length, or with the length of
its length. -/
inductive Header (item : Bytes) : Prop
  | single (b : UInt8) (hb : b.toNat < 128) (hitem : item = [b])
      (hcode : rlpEncodeBytes item = [b])
  | short (b : UInt8) (hb : b.toNat = 128 + item.length) (hlength : item.length < 56)
      (hcode : rlpEncodeBytes item = b :: item)
  | long (b : UInt8) (n : ℕ) (hn : (encodeLength item.length).length = n) (hpos : 0 < n)
      (hb : b.toNat = 183 + n) (hlength : 56 ≤ item.length)
      (hcode : rlpEncodeBytes item = b :: (encodeLength item.length ++ item))

theorem header (item : Bytes) (h : item.length < 2 ^ 64) : Header item := by
  by_cases hsingle : item.length = 1 ∧ item.headD 0 < 0x80
  · obtain ⟨b, rfl⟩ := List.length_eq_one_iff.mp hsingle.1
    refine .single b ?_ rfl (by rw [rlpEncodeBytes, if_pos hsingle])
    exact UInt8.lt_iff_toNat_lt.mp hsingle.2
  · by_cases hshort : item.length < 56
    · refine .short _ ?_ hshort (by rw [rlpEncodeBytes, if_neg hsingle, if_pos hshort])
      rw [UInt8.toNat_ofNat']
      omega
    · have hbytes := length_encodeLength_le_eight h
      refine .long _ _ rfl (length_encodeLength_pos _) ?_ (Nat.le_of_not_lt hshort)
        (by rw [rlpEncodeBytes, if_neg hsingle, if_neg hshort])
      rw [UInt8.toNat_ofNat']
      omega

/-- The encodings of byte strings that fit into memory are a prefix code. -/
theorem prefixFree_rlpEncodeBytes :
    PrefixFree (fun item : Bytes => item.length < 2 ^ 64) rlpEncodeBytes := by
  intro x y hx hy h
  cases header x hx with
  | single a ha hxs hcode =>
    cases header y hy with
    | single b hb hys hcode' =>
      rw [hcode, hcode', List.cons_prefix_cons] at h
      rw [hxs, hys, h.1]
    | short b hb hlength hcode' | long b n hn hpos hb hlength hcode' =>
      rw [hcode, hcode', List.cons_prefix_cons] at h
      rw [h.1, hb] at ha
      omega
  | short a ha hlength hcode =>
    cases header y hy with
    | short b hb hlength' hcode' =>
      rw [hcode, hcode', List.cons_prefix_cons] at h
      obtain ⟨rfl, hprefix⟩ := h
      exact hprefix.eq_of_length (by omega)
    | single b hb hys hcode' | long b n hn hpos hb hlength hcode' =>
      rw [hcode, hcode', List.cons_prefix_cons] at h
      rw [h.1] at ha
      omega
  | long a n hn hpos ha hlength hcode =>
    cases header y hy with
    | long b n' hn' hpos' hb' hlength' hcode' =>
      rw [hcode, hcode', List.cons_prefix_cons] at h
      obtain ⟨rfl, rest, hrest⟩ := h
      rw [List.append_assoc] at hrest
      obtain ⟨hcodes, hitems⟩ := List.append_inj hrest (by omega)
      have hlengths : x.length = y.length := encodeLength_injective hcodes
      exact List.IsPrefix.eq_of_length ⟨rest, hitems⟩ hlengths
    | single b hb hys hcode' | short b hb hlength hcode' =>
      rw [hcode, hcode', List.cons_prefix_cons] at h
      rw [h.1] at ha
      omega

theorem rlpEncodeBytes_ne_nil (item : Bytes) : rlpEncodeBytes item ≠ [] := by
  unfold rlpEncodeBytes
  split
  · next h =>
    rintro rfl
    cases h.1
  · split <;> exact List.cons_ne_nil _ _

/-- The payload is told from the length of the encoding. -/
theorem rlpEncodeList_inj {items items' : List Bytes}
    (hitems : ∀ item ∈ items, item.length < 2 ^ 64) (hitems' : ∀ item ∈ items', item.length < 2 ^ 64)
    (h : rlpEncodeList items = rlpEncodeList items') : items = items' := by
  apply prefixFree_rlpEncodeBytes.flatMap_inj rlpEncodeBytes_ne_nil hitems hitems'
  simp only [rlpEncodeList] at h
  generalize items.flatMap rlpEncodeBytes = payload at h ⊢
  generalize items'.flatMap rlpEncodeBytes = payload' at h ⊢
  have hlength := congrArg List.length h
  split at h
  · next hshort =>
    split at h
    · exact (List.cons.inj h).2
    · next hlong =>
      rw [if_pos hshort, if_neg hlong, List.length_cons, List.length_cons, List.length_append]
        at hlength
      omega
  · next hlong =>
    split at h
    · next hshort =>
      rw [if_pos hshort, if_neg hlong, List.length_cons, List.length_cons, List.length_append]
        at hlength
      omega
    · next hlong' =>
      rw [if_neg hlong, if_neg hlong', List.length_cons, List.length_cons, List.length_append,
        List.length_append] at hlength
      have hsame : payload.length = payload'.length := by
        rcases Nat.le_total payload.length payload'.length with hle | hle
        · have := length_encodeLength_le hle
          omega
        · have := length_encodeLength_le hle
          omega
      rw [hsame] at h
      exact List.append_cancel_left (List.cons.inj h).2

/-- What is written into a list stands there in one piece. -/
theorem infix_rlpEncodeList {item : Bytes} {items : List Bytes} (h : item ∈ items) :
    item <:+: rlpEncodeList items := by
  have hitem : item <:+ rlpEncodeBytes item := by
    unfold rlpEncodeBytes
    split
    · exact List.suffix_refl item
    · split
      · exact List.suffix_cons _ _
      · exact (List.suffix_append _ item).trans (List.suffix_cons _ _)
  have hpayload : rlpEncodeBytes item <:+: items.flatMap rlpEncodeBytes := by
    obtain ⟨before, after, rfl⟩ := List.append_of_mem h
    rw [List.flatMap_append, List.flatMap_cons]
    exact ⟨before.flatMap rlpEncodeBytes, after.flatMap rlpEncodeBytes, by simp⟩
  have hwhole : items.flatMap rlpEncodeBytes <:+ rlpEncodeList items := by
    simp only [rlpEncodeList]
    split
    · exact List.suffix_cons _ _
    · exact (List.suffix_append _ _).trans (List.suffix_cons _ _)
  exact (hitem.isInfix.trans hpayload).trans hwhole.isInfix

theorem two_le_length_rlpEncodeList {items : List Bytes} (h : items ≠ []) :
    2 ≤ (rlpEncodeList items).length := by
  have hpayload : items.flatMap rlpEncodeBytes ≠ [] := by
    cases items with
    | nil => exact absurd rfl h
    | cons item items => simp [rlpEncodeBytes_ne_nil]
  have hpos := List.length_pos_iff.mpr hpayload
  simp only [rlpEncodeList]
  split
  · rw [List.length_cons]
    omega
  · rw [List.length_cons, List.length_append]
    omega

end Rlp

namespace TrieNode

variable {keccak256 : Bytes → Bytes}

/-- How a node stands in the encoding of its parent. -/
def reference (keccak256 : Bytes → Bytes) (child : TrieNode) : Bytes :=
  if child.isEmpty then [] else digest keccak256 (encode keccak256 child)

theorem encode_extension (path : List Nibble) (nextNode : TrieNode) :
    encode keccak256 (extension path nextNode) =
      rlpEncodeList [compactEncode path false, reference keccak256 nextNode] := rfl

theorem encode_branch (children : Nibble → TrieNode) (value : Bytes) :
    encode keccak256 (branch children value) =
      rlpEncodeList ((List.ofFn fun i => reference keccak256 (children i)) ++ [value]) := rfl

/-- Paths and values of lengths that can occur. -/
def Encodable : TrieNode → Prop
  | empty => True
  | leaf path value => path.length ≤ 64 ∧ value.length < 2 ^ 63
  | extension path nextNode => path.length ≤ 64 ∧ nextNode ≠ empty ∧ Encodable nextNode
  | branch children value => value.length < 2 ^ 63 ∧ ∀ i, Encodable (children i)

/-- The encodings of the node and of all nodes below it. -/
def encodings (keccak256 : Bytes → Bytes) : TrieNode → List Bytes
  | empty => []
  | leaf path value => [encode keccak256 (leaf path value)]
  | extension path nextNode =>
    encode keccak256 (extension path nextNode) :: encodings keccak256 nextNode
  | branch children value =>
    encode keccak256 (branch children value) ::
      (List.finRange 16).flatMap fun i => encodings keccak256 (children i)

variable {t u : TrieNode} {S : Set Bytes}

theorem isEmpty_iff : t.isEmpty = true ↔ t = empty := by
  cases t <;> simp [isEmpty]

theorem encode_mem (h : t ≠ empty) : encode keccak256 t ∈ encodings keccak256 t := by
  cases t with
  | empty => exact absurd rfl h
  | leaf path value => exact List.mem_cons_self
  | extension path nextNode => exact List.mem_cons_self
  | branch children value => exact List.mem_cons_self

theorem mem_encodings_child {children : Nibble → TrieNode} {value x : Bytes} {i : Nibble}
    (h : x ∈ encodings keccak256 (children i)) :
    x ∈ encodings keccak256 (branch children value) :=
  List.mem_cons_of_mem _ (List.mem_flatMap.mpr ⟨i, List.mem_finRange i, h⟩)

theorem two_le_length_encode (keccak256 : Bytes → Bytes) (h : t ≠ empty) : 2 ≤ (encode keccak256 t).length := by
  cases t with
  | empty => exact absurd rfl h
  | leaf path value => exact two_le_length_rlpEncodeList (List.cons_ne_nil _ _)
  | extension path nextNode => exact two_le_length_rlpEncodeList (List.cons_ne_nil _ _)
  | branch children value => exact two_le_length_rlpEncodeList (by simp)

theorem items_short {path : List Nibble} {value : Bytes} (isLeaf : Bool)
    (hpath : path.length ≤ 64) (hvalue : value.length < 2 ^ 63) :
    ∀ item ∈ [compactEncode path isLeaf, value], item.length < 2 ^ 64 := by
  simp only [List.forall_mem_cons, length_compactEncode]
  refine ⟨by omega, by omega, nofun⟩

section Collisions

variable (hlength : ∀ data, (keccak256 data).length = 32)

include hlength

theorem digest_inj (hinj : Set.InjOn keccak256 S) {x y : Bytes} (hx : x ∈ S) (hy : y ∈ S)
    (h : digest keccak256 x = digest keccak256 y) : x = y := by
  unfold digest at h
  split at h
  · next hshort =>
    split at h
    · exact h
    · rw [h, hlength] at hshort
      omega
  · split at h
    · next hshort =>
      rw [← h, hlength] at hshort
      omega
    · exact hinj hx hy h

theorem length_reference_le (t : TrieNode) : (reference keccak256 t).length ≤ 32 := by
  unfold reference
  split
  · norm_num
  · unfold digest
    split
    · omega
    · rw [hlength]

theorem reference_ne_nil (h : t ≠ empty) : reference keccak256 t ≠ [] := by
  have htwo := two_le_length_encode keccak256 h
  rw [reference, if_neg (mt isEmpty_iff.mp h), digest]
  intro hnil
  split at hnil
  · rw [hnil] at htwo
    simp at htwo
  · have h32 := hlength (encode keccak256 t)
    rw [hnil] at h32
    cases h32

/-- References are as good as the nodes, where the encodings are. -/
theorem reference_inj (hinj : Set.InjOn keccak256 S) (htS : ∀ x ∈ encodings keccak256 t, x ∈ S)
    (huS : ∀ x ∈ encodings keccak256 u, x ∈ S)
    (hencode : t ≠ empty → u ≠ empty → encode keccak256 t = encode keccak256 u → t = u)
    (h : reference keccak256 t = reference keccak256 u) : t = u := by
  by_cases ht : t = empty
  · by_contra hne
    apply reference_ne_nil hlength (t := u) (fun hu => hne (ht.trans hu.symm))
    rw [← h, ht]
    rfl
  · have hu : u ≠ empty := by
      rintro rfl
      exact reference_ne_nil hlength ht h
    apply hencode ht hu
    apply digest_inj hlength hinj (htS _ (encode_mem ht)) (huS _ (encode_mem hu))
    rwa [reference, reference, if_neg (mt isEmpty_iff.mp ht), if_neg (mt isEmpty_iff.mp hu)] at h

theorem items_branch (children : Nibble → TrieNode) {value : Bytes}
    (hvalue : value.length < 2 ^ 63) :
    ∀ item ∈ (List.ofFn fun i => reference keccak256 (children i)) ++ [value],
      item.length < 2 ^ 64 := by
  intro item hitem
  rw [List.mem_append, List.mem_ofFn, List.mem_singleton] at hitem
  obtain ⟨i, rfl⟩ | rfl := hitem
  · have := length_reference_le hlength (children i)
    omega
  · omega

/-- Without a collision among the encodings, the encoding of a node determines it. -/
theorem encode_inj (hinj : Set.InjOn keccak256 S) (ht : t.Encodable) (hu : u.Encodable)
    (htS : ∀ x ∈ encodings keccak256 t, x ∈ S) (huS : ∀ x ∈ encodings keccak256 u, x ∈ S)
    (hte : t ≠ empty) (hue : u ≠ empty) (h : encode keccak256 t = encode keccak256 u) : t = u := by
  induction t generalizing u with
  | empty => exact absurd rfl hte
  | leaf path value =>
    have hitems := items_short true ht.1 ht.2
    cases u with
    | empty => exact absurd rfl hue
    | leaf path' value' =>
      have heq := rlpEncodeList_inj hitems (items_short true hu.1 hu.2) h
      simp only [List.cons.injEq, and_true] at heq
      rw [(compactEncode_inj heq.1).1, heq.2]
    | extension path' nextNode =>
      have hshort : (reference keccak256 nextNode).length < 2 ^ 63 :=
        (length_reference_le hlength nextNode).trans_lt (by norm_num)
      have heq := rlpEncodeList_inj hitems (items_short false hu.1 hshort) h
      exact absurd (compactEncode_inj (List.cons.inj heq).1).2 (by decide)
    | branch children value' =>
      have heq := rlpEncodeList_inj hitems (items_branch hlength _ hu.1) h
      simpa using congrArg List.length heq
  | extension path nextNode ih =>
    have hshort (next : TrieNode) : (reference keccak256 next).length < 2 ^ 63 :=
      (length_reference_le hlength next).trans_lt (by norm_num)
    have hitems := items_short false ht.1 (hshort nextNode)
    cases u with
    | empty => exact absurd rfl hue
    | leaf path' value' =>
      have heq := rlpEncodeList_inj hitems (items_short true hu.1 hu.2) h
      exact absurd (compactEncode_inj (List.cons.inj heq).1).2 (by decide)
    | extension path' nextNode' =>
      have heq := rlpEncodeList_inj hitems (items_short false hu.1 (hshort nextNode')) h
      simp only [List.cons.injEq, and_true] at heq
      have htS' := fun x hx => htS x (List.mem_cons_of_mem _ hx)
      have huS' := fun x hx => huS x (List.mem_cons_of_mem _ hx)
      rw [(compactEncode_inj heq.1).1, reference_inj hlength hinj htS' huS'
        (fun hne hne' => ih ht.2.2 hu.2.2 htS' huS' hne hne') heq.2]
    | branch children value' =>
      have heq := rlpEncodeList_inj hitems (items_branch hlength _ hu.1) h
      simpa using congrArg List.length heq
  | branch children value ih =>
    have hitems := items_branch hlength children ht.1
    cases u with
    | empty => exact absurd rfl hue
    | leaf path' value' =>
      have heq := rlpEncodeList_inj hitems (items_short true hu.1 hu.2) h
      simpa using congrArg List.length heq
    | extension path' nextNode' =>
      have hshort : (reference keccak256 nextNode').length < 2 ^ 63 :=
        (length_reference_le hlength nextNode').trans_lt (by norm_num)
      have heq := rlpEncodeList_inj hitems (items_short false hu.1 hshort) h
      simpa using congrArg List.length heq
    | branch children' value' =>
      have heq := rlpEncodeList_inj hitems (items_branch hlength _ hu.1) h
      obtain ⟨hrefs, hvalue⟩ := List.append_inj heq (by simp)
      have hchildren (i : Nibble) : children i = children' i := by
        have htS' : ∀ x ∈ encodings keccak256 (children i), x ∈ S :=
          fun x hx => htS x (mem_encodings_child hx)
        have huS' : ∀ x ∈ encodings keccak256 (children' i), x ∈ S :=
          fun x hx => huS x (mem_encodings_child hx)
        exact reference_inj hlength hinj htS' huS'
          (fun hne hne' => ih i (ht.2 i) (hu.2 i) htS' huS' hne hne')
          (congrFun (List.ofFn_injective hrefs) i)
      rw [funext hchildren, List.singleton_inj.mp hvalue]

end Collisions

end TrieNode

end Qubitcoin.Qvm
