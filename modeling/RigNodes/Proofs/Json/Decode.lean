import RigNodes.Document.Encode
import RigNodes.Proofs.Json.Reader

/-! Decoding what was encoded. Of the data of a value every reader makes the value again, unless
one of its floating values had no text: then it stops at the null that stands in its place. -/
namespace RigNodes

theorem Shape.toList_cons {α : Type} {n : Nat} (a : α) (v : Vector α n) :
    (Shape.cons a v).toList = a :: v.toList := by
  simp [Shape.cons, Vector.toList]

theorem Shape.exists_cons {α : Type} {n : Nat} (v : Vector α (n + 1)) :
    ∃ (a : α) (w : Vector α n), v = Shape.cons a w := by
  cases hlist : v.toList with
  | nil =>
      have hlength := v.length_toList
      rw [hlist] at hlength
      cases hlength
  | cons a as =>
      have hlength := v.length_toList
      rw [hlist, List.length_cons, Nat.succ_inj] at hlength
      refine ⟨a, ⟨as.toArray, hlength⟩, ?_⟩
      rw [← Vector.toList_inj, Shape.toList_cons, hlist]
      rfl

/-- A value that is not written is the one that stands for it. -/
theorem Presence.or_default? {α : Type} (p : Presence α) (a : α) :
    (if p.isWritten a then some a else none).or p.default? = some a := by
  cases p with
  | required => rfl
  | defaulted value => rfl
  | omitted value isDefault isDefault_iff =>
      cases h : isDefault a with
      | false => simp [isWritten, h]
      | true =>
          obtain rfl := (isDefault_iff a).mp h
          simp [isWritten, default?, h]

namespace Fields

def names : {α : Type} → Fields α → List String
  | _, .done => []
  | _, .cons name _ _ rest => name :: rest.names

/-- What is found of the first field and of the others. -/
def Found.cons {α β : Type} {name : String} {s : Shape α} {presence : Presence α}
    {rest : Fields β} (a? : Option α) (others : rest.Found) :
    (Fields.cons name s presence rest).Found :=
  (a?, others)

theorem noneFound_cons {α β : Type} (name : String) (s : Shape α) (presence : Presence α)
    (rest : Fields β) :
    (Fields.cons name s presence rest).noneFound = .cons none rest.noneFound := rfl

/-- What is found of the fields of a record that was written. -/
def written : {α : Type} → (fs : Fields α) → α → fs.Found
  | _, .done, _ => ()
  | _, .cons _ _ presence rest, (a, others) =>
    .cons (if presence.isWritten a then some a else none) (rest.written others)

/-- Fields that are left out have the value that stands for them. -/
theorem complete_written : {α : Type} → (fs : Fields α) → (a : α) →
    fs.complete (fs.written a) = .ok a
  | _, .done, _ => rfl
  | _, .cons _ _ presence rest, (a, others) => by
      simp only [complete, written, Found.cons, presence.or_default? a, complete_written rest others]
      rfl

theorem mem_names : {α : Type} → (fs : Fields α) → (a : α) → {p : String × Datum} →
    p ∈ fs.encode a → p.1 ∈ fs.names
  | _, .cons name s presence rest, (a, others), p, h => by
      rw [encode, List.mem_append] at h
      rw [names, List.mem_cons]
      rcases h with h | h
      · split at h
        · rw [List.mem_singleton.mp h]
          exact .inl rfl
        · cases h
      · exact .inr (mem_names rest others h)

end Fields

namespace Json

/-- A value that is read back, with the floating values in its text. -/
def checked {α : Type} (xs : List Single) (a : α) : Except Fault α :=
  if xs.all Single.isFinite then .ok a else .error (.data (.wrongType .null "f32"))

section

variable {α β : Type} {a : α} {b : β} {xs ys : List Single}

theorem checked_nil (a : α) : checked [] a = .ok a := rfl

theorem checked_bind {f : α → Except Fault β} (h : f a = checked ys b) :
    (checked xs a >>= f) = checked (xs ++ ys) b := by
  unfold checked at *
  cases hxs : xs.all Single.isFinite with
  | true =>
      simp only [List.all_append, hxs, Bool.true_and, if_true]
      exact h
  | false =>
      simp only [List.all_append, hxs, Bool.false_and]
      rfl

theorem checked_bind_ok {f : α → Except Fault β} (h : f a = .ok b) :
    (checked xs a >>= f) = checked xs b := by
  have hbind : (checked xs a >>= f) = checked (xs ++ []) b :=
    checked_bind (h.trans (checked_nil b).symm)
  rwa [List.append_nil] at hbind

end

/-! Atoms. -/

/-- The tree of a whole number of 64 bits. -/
theorem tree_integer {i : Int} (hlow : -2 ^ 63 ≤ i) (hhigh : i < 2 ^ 64) :
    (Datum.integer i).tree = .atom (.ok (.integer i)) (.ok ()) := by
  obtain ⟨a, ha, hvalue⟩ := Numeral.read_integer i
  rw [Datum.tree, ha, hvalue hlow hhigh]

theorem readWhole_tree {least greatest i : Int} (expected : String) (hleast : least ≤ i)
    (hgreatest : i ≤ greatest) (hlow : -2 ^ 63 ≤ i) (hhigh : i < 2 ^ 64) :
    readWhole least greatest expected (Datum.integer i).tree = .ok i := by
  rw [tree_integer hlow hhigh]
  exact if_pos ⟨hleast, hgreatest⟩

theorem readWord_tree (n : UInt32) : readWord (Datum.integer n.toNat).tree = .ok n := by
  have hn : n.toNat < 4294967296 := n.toNat_lt
  have hgreatest : (n.toNat : Int) ≤ Int.pow 2 32 - 1 := by
    change (n.toNat : Int) ≤ 4294967295
    omega
  rw [readWord, readWhole_tree "u32" (Int.natCast_nonneg _) hgreatest (by omega) (by omega)]
  change Except.ok (UInt32.ofNat n.toNat) = .ok n
  rw [UInt32.ofNat_toNat]

theorem decode_integer (i : Int32) :
    decode .streamed .integer (Datum.integer i.toInt).tree = .ok i := by
  have hleast : -Int.pow 2 31 ≤ i.toInt := i.le_toInt
  have hgreatest : i.toInt ≤ Int.pow 2 31 - 1 := Int.le_sub_one_of_lt i.toInt_lt
  have hlow : -2 ^ 63 ≤ i.toInt := Int.le_trans (by decide) hleast
  have hhigh : i.toInt < 2 ^ 64 := Int.lt_of_le_of_lt hgreatest (by decide)
  rw [decode, readWhole_tree "i32" hleast hgreatest hlow hhigh]
  change Except.ok (Int32.ofInt i.toInt) = .ok i
  rw [Int32.ofInt_toInt]

theorem readSingle_tree {x : Single} (hread : x.isFinite → x.Rereads) :
    readSingle (Datum.single x).tree = checked [x] x := by
  cases hfinite : x.isFinite with
  | false =>
      rw [Datum.tree, Single.text?_eq_none true hfinite]
      simp only [checked, List.all_cons, hfinite, Bool.false_and]
      rfl
  | true =>
      obtain ⟨s, a, htext, hs, hx⟩ := hread hfinite
      simp only [Datum.tree, htext, hs, hx, checked, List.all_cons, hfinite, List.all_nil,
        Bool.and_self, if_true]

/-! References and keywords. -/

theorem readRef_tree (r : NodeRef) : readRef .streamed r.datum.tree = .ok r := by
  cases r with
  | number n =>
      change (readWord (Datum.integer n.toNat).tree >>= fun n => pure (NodeRef.number n)) >>= pure = _
      rw [readWord_tree]
      rfl
  | name x => rfl
  | slot s =>
      change (readWord (Datum.integer s.index.toNat).tree >>= fun n => pure (NodeRef.slot ⟨n⟩)) >>=
        pure = _
      rw [readWord_tree]
      rfl
  | unresolved => rfl

theorem readKeyword_tree (k : Keyword) : readKeyword (.ofString k.text) = .ok k := by
  cases k <;> rfl

/-! Lists and arrays. -/

section

variable {α : Type} {item : Tree → Except Fault α} {datum : α → Datum}

theorem readList_tree {as : List α}
    (h : ∀ a ∈ as, item (datum a).tree = checked (datum a).singles a) :
    readList item (Datum.treeItems (as.map datum)) =
      checked (Datum.itemSingles (as.map datum)) as := by
  induction as with
  | nil => rfl
  | cons a as ih =>
      obtain ⟨ha, has⟩ := List.forall_mem_cons.mp h
      rw [List.map_cons, Datum.treeItems, readList, ha]
      refine checked_bind ?_
      rw [ih has]
      exact checked_bind_ok rfl

theorem readSequence_tree {as : List α}
    (h : ∀ a ∈ as, item (datum a).tree = checked (datum a).singles a) :
    readSequence item (Datum.list (as.map datum)).tree =
      checked (Datum.list (as.map datum)).singles as := by
  rw [Datum.tree, readSequence, readList_tree h, Datum.singles]

theorem readItem_cons {a : α} {t : Tree} {xs : List Single} (place : Nat) (expected : String)
    (rest : Items) (h : item t = checked xs a) :
    readItem item place expected (.cons t rest) = checked xs (a, rest) := by
  rw [readItem, h]
  exact checked_bind_ok rfl

theorem readArray_tree (expected : String) (n place : Nat) (v : Vector α n)
    (h : ∀ a ∈ v.toList, item (datum a).tree = checked (datum a).singles a) :
    readArray item expected n place (Datum.treeItems (v.toList.map datum)) =
      checked (Datum.itemSingles (v.toList.map datum)) (v, .closed) := by
  induction n generalizing place with
  | zero =>
      have hv : v = #v[] := Vector.eq_empty
      rw [hv]
      rfl
  | succ n ih =>
      obtain ⟨a, v, rfl⟩ := Shape.exists_cons v
      rw [Shape.toList_cons] at h ⊢
      obtain ⟨ha, hv⟩ := List.forall_mem_cons.mp h
      rw [List.map_cons, Datum.treeItems, Datum.itemSingles, readArray, readItem_cons _ _ _ ha]
      refine checked_bind ?_
      change (readArray item expected n (place + 1) _ >>= _) = _
      rw [ih (place + 1) v hv]
      exact checked_bind_ok rfl

theorem readTuple_tree {n : Nat} (v : Vector α n)
    (h : ∀ a ∈ v.toList, item (datum a).tree = checked (datum a).singles a) :
    readTuple .streamed item n (Datum.list (v.toList.map datum)).tree =
      checked (Datum.list (v.toList.map datum)).singles v := by
  rw [Datum.tree, readTuple, readArray_tree _ n 0 v h, Datum.singles]
  exact checked_bind_ok rfl

end

/-! Records. -/

theorem readMembers_cons {β : Type} (take : FieldKey → Tree → β → Except Fault (Option β))
    (found : β) (key : String) (t : Tree) (rest : Members) :
    readMembers .streamed take found (.cons (.ofString key) t rest) =
      (take (.name key) t found >>= fun
        | some found => readMembers .streamed take found rest
        | none => do
          t.skip
          readMembers .streamed take found rest) := rfl

section

variable {α β : Type} (name : String) (s : Shape α) (presence : Presence α) (rest : Fields β)
  (others : rest.Found)

theorem decodeField_first (t : Tree) :
    decodeField .streamed (.cons name s presence rest) (.name name) t (.cons none others) =
      (decode .streamed s t >>= fun a => pure (some (.cons (some a) others))) := by
  rw [decodeField.eq_def]
  exact if_pos (beq_self_eq_true name)

variable {name}

theorem decodeField_next {key : String} (h : key ≠ name) (t : Tree) (a? : Option α) :
    decodeField .streamed (.cons name s presence rest) (.name key) t (.cons a? others) =
      (decodeField .streamed rest (.name key) t others >>= fun found =>
        pure (found.map (.cons a?))) := by
  rw [decodeField.eq_def]
  exact if_neg (by rw [FieldKey.isFirst, beq_false_of_ne h]; exact Bool.false_ne_true)

/-- Fields with other names than the first are read as without it. -/
theorem readMembers_rest (a? : Option α) {fields : List (String × Datum)}
    (h : ∀ p ∈ fields, p.1 ≠ name) :
    readMembers .streamed (decodeField .streamed (.cons name s presence rest)) (.cons a? others)
        (Datum.treeMembers fields) =
      (readMembers .streamed (decodeField .streamed rest) others (Datum.treeMembers fields) >>=
        fun others => pure (.cons a? others)) := by
  induction fields generalizing others with
  | nil => rfl
  | cons p fields ih =>
      obtain ⟨key, d⟩ := p
      obtain ⟨hkey, hfields⟩ := List.forall_mem_cons.mp h
      rw [Datum.treeMembers, readMembers_cons, readMembers_cons,
        decodeField_next s presence rest others hkey]
      cases hfield : decodeField .streamed rest (.name key) d.tree others with
      | error f => rfl
      | ok found =>
          cases found with
          | some found => exact ih found hfields
          | none =>
              change (d.tree.skip >>= fun _ => readMembers _ _ _ _) = _
              rw [ih others hfields]
              cases d.tree.skip with
              | error f => simp only [bind, Except.bind]
              | ok u => simp only [bind, Except.bind]

end

end Json

/-- Data that is never written as null. -/
def Shape.Solid {α : Type} : Shape α → Prop
  | .single | .optional _ => False
  | _ => True

mutual

/-- A shape that can be told from what is written by it: what may be left out is never null when
it is there, and no two fields of a record have one name. -/
def Shape.Sound : {α : Type} → Shape α → Prop
  | _, .optional s => s.Solid ∧ s.Sound
  | _, .list s | _, .array _ s => s.Sound
  | _, .record _ fields _ _ _ => fields.Sound
  | _, .block entry => ∀ k, (entry k).Sound
  | _, .word | _, .integer | _, .single | _, .flag | _, .text | _, .reference => True

def Fields.Sound : {α : Type} → Fields α → Prop
  | _, .done => True
  | _, .cons name s _ rest => name ∉ rest.names ∧ s.Sound ∧ rest.Sound

end

namespace Json

/-- The tree of null. -/
def Tree.IsNull : Tree → Prop
  | .atom (.ok .null) _ => True
  | _ => False

theorem readOptional_of_not {α : Type} {item : Tree → Except Fault α} {t : Tree}
    (h : ¬ t.IsNull) : readOptional item t = (item t >>= fun a => pure (some a)) := by
  unfold readOptional
  split
  · exact absurd trivial h
  · rfl

theorem not_isNull_integer {i : Int} (hlow : -2 ^ 63 ≤ i) (hhigh : i < 2 ^ 64) :
    ¬ (Datum.integer i).tree.IsNull := by
  rw [tree_integer hlow hhigh]
  exact id

theorem not_isNull_of_solid {α : Type} {s : Shape α} (hs : s.Solid) (a : α) :
    ¬ (s.encode a).tree.IsNull := by
  cases s with
  | word =>
      have hn : a.toNat < 4294967296 := a.toNat_lt
      rw [Shape.encode]
      exact not_isNull_integer (by omega) (by omega)
  | integer =>
      rw [Shape.encode]
      exact not_isNull_integer (Int.le_trans (by decide) a.le_toInt)
        (Int.lt_trans a.toInt_lt (by decide))
  | single => exact absurd hs id
  | optional s => exact absurd hs id
  | flag => exact id
  | text => exact id
  | reference => cases a <;> exact id
  | list s => exact id
  | array n s => exact id
  | record name fields build parts build_parts => exact id
  | block entry => exact id

theorem singles_datum (r : NodeRef) : r.datum.singles = [] := by
  cases r <;> rfl

theorem itemSingles_eq (ds : List Datum) : Datum.itemSingles ds = ds.flatMap Datum.singles := by
  induction ds with
  | nil => rfl
  | cons d ds ih => rw [Datum.itemSingles, ih, List.flatMap_cons]

theorem mem_itemSingles {α : Type} {datum : α → Datum} {as : List α} {a : α} (ha : a ∈ as)
    {x : Single} (hx : x ∈ (datum a).singles) : x ∈ Datum.itemSingles (as.map datum) := by
  rw [itemSingles_eq, List.mem_flatMap]
  exact ⟨datum a, List.mem_map_of_mem ha, hx⟩

theorem readSection_tree
    (entries : (k : Keyword) → Source → Tree → Except Fault (List (Entry k))) {k : Keyword}
    {t : Tree} {es : List (Entry k)} {xs : List Single}
    (h : entries k .streamed t = checked xs es) :
    readSection entries (.map (.cons (.ofString "keyword") (.ofString k.text)
      (.cons (.ofString "entries") t .closed))) = checked xs ⟨k, es⟩ := by
  change (readKeyword (.ofString k.text) >>= fun k => entries k .streamed t >>= fun es =>
    readSectionEnd .closed >>= fun _ => (pure ⟨k, es⟩ : Except Fault Section)) = _
  rw [readKeyword_tree]
  change (entries k .streamed t >>= _) = _
  rw [h]
  exact checked_bind_ok rfl

mutual

/-- What was encoded is decoded again, if all its floating values are finite. -/
theorem decode_encode : {α : Type} → (s : Shape α) → s.Sound → (a : α) →
    (∀ x ∈ (s.encode a).singles, x.isFinite → x.Rereads) →
    decode .streamed s (s.encode a).tree = checked (s.encode a).singles a
  | _, .word, _, n, _ => by
      rw [Shape.encode, decode, readWord_tree]
      rfl
  | _, .integer, _, i, _ => decode_integer i
  | _, .single, _, x, hread => by
      rw [Shape.encode, decode, readSingle_tree (hread x (List.mem_singleton.mpr rfl))]
      rfl
  | _, .flag, _, b, _ => rfl
  | _, .text, _, s, _ => rfl
  | _, .reference, _, r, _ => by
      rw [Shape.encode, decode, readRef_tree, singles_datum, checked_nil]
  | _, .optional s, _, none, _ => rfl
  | _, .optional s, hs, some a, hread => by
      obtain ⟨hsolid, hs⟩ : s.Solid ∧ s.Sound := hs
      change readOptional (decode .streamed s) (s.encode a).tree = checked (s.encode a).singles _
      rw [readOptional_of_not (not_isNull_of_solid hsolid a), decode_encode s hs a hread]
      exact checked_bind_ok rfl
  | _, .list s, hs, as, hread => by
      rw [Shape.encode, decode]
      exact readSequence_tree fun a ha => decode_encode s hs a fun x hx =>
        hread x (mem_itemSingles ha hx)
  | _, .array n s, hs, v, hread => by
      rw [Shape.encode, decode]
      exact readTuple_tree v fun a ha => decode_encode s hs a fun x hx =>
        hread x (mem_itemSingles ha hx)
  | _, .record name fields build parts build_parts, hs, a, hread => by
      have hmembers := readMembers_encode fields hs (parts a) hread
      rw [Shape.encode, Datum.tree, Datum.singles, decode]
      change (readMembers _ _ _ _ >>= _) = _
      rw [hmembers]
      refine checked_bind_ok ?_
      rw [finish, fields.complete_written]
      change Except.ok (build (parts a)) = _
      rw [build_parts]
  | _, .block entry, hs, ⟨k, es⟩, hread => by
      have hentries : readSequence (decode .streamed (entry k))
          (Datum.list (es.map (entry k).encode)).tree = checked _ es :=
        readSequence_tree fun a ha => decode_encode (entry k) (hs k) a fun x hx =>
          hread x (by simp [Shape.encode, Datum.singles, Datum.fieldSingles, mem_itemSingles ha hx])
      have hsection := readSection_tree
        (fun k src t => readSequence (decode src (entry k)) t) hentries
      rw [Shape.encode, decode]
      simpa [Datum.tree, Datum.treeMembers, Datum.singles, Datum.fieldSingles] using hsection

/-- Of the members written for a record all its fields are found that are not left out. -/
theorem readMembers_encode : {α : Type} → (fs : Fields α) → fs.Sound → (a : α) →
    (∀ x ∈ Datum.fieldSingles (fs.encode a), x.isFinite → x.Rereads) →
    readMembers .streamed (decodeField .streamed fs) fs.noneFound
        (Datum.treeMembers (fs.encode a)) =
      checked (Datum.fieldSingles (fs.encode a)) (fs.written a)
  | _, .done, _, _, _ => rfl
  | _, .cons name s presence rest, hs, (a, others), hread => by
      obtain ⟨hname, hs, hrest⟩ : name ∉ rest.names ∧ s.Sound ∧ rest.Sound := hs
      -- The members of the other fields pass the first one by.
      have hkeys : ∀ p ∈ rest.encode others, p.1 ≠ name := by
        rintro p hp rfl
        exact hname (rest.mem_names others hp)
      cases hwritten : presence.isWritten a with
      | false =>
          have hencode : Fields.encode (.cons name s presence rest) (a, others) =
              rest.encode others := by
            simp [Fields.encode, hwritten]
          have hfound : Fields.written (.cons name s presence rest) (a, others) =
              .cons none (rest.written others) := by
            simp [Fields.written, hwritten]
          rw [hencode] at hread ⊢
          rw [Fields.noneFound_cons, readMembers_rest s presence rest rest.noneFound none hkeys,
            readMembers_encode rest hrest others hread, hfound]
          exact checked_bind_ok rfl
      | true =>
          have hencode : Fields.encode (.cons name s presence rest) (a, others) =
              (name, s.encode a) :: rest.encode others := by
            simp [Fields.encode, hwritten]
          have hfound : Fields.written (.cons name s presence rest) (a, others) =
              .cons (some a) (rest.written others) := by
            simp [Fields.written, hwritten]
          rw [hencode] at hread ⊢
          simp only [Datum.fieldSingles, List.forall_mem_append] at hread
          rw [Fields.noneFound_cons, Datum.treeMembers, readMembers_cons, decodeField_first,
            decode_encode s hs a hread.1, Datum.fieldSingles, bind_assoc]
          refine checked_bind ?_
          change readMembers .streamed _ (Fields.Found.cons (some a) rest.noneFound) _ = _
          rw [readMembers_rest s presence rest rest.noneFound (some a) hkeys,
            readMembers_encode rest hrest others hread.2, hfound]
          exact checked_bind_ok rfl

end

end Json

end RigNodes
