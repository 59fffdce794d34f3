/-
One Go value has many lists of map entries: `MapKeys` enumerates a map's keys in an unspecified
order, a new one on every call. `Val.Equiv` relates two listings of the same value, and the
relations built on it (`Chunk.Equiv`, `ChunksEquiv`, `ExRel`) say when two runs of `Diff` on
such listings agree.
-/
import FluxProofs.Remote.Diff
import Mathlib.Data.List.Perm.Basic
import Mathlib.Data.List.Forall2

namespace Flux.Remote

/-! ## The same Go value -/

/-- `a` and `b` are listings of the same Go value: they differ at most in the order of the
entries of their maps. -/
def Val.Equiv : Val → Val → Prop
  | .ground x, .ground y => x = y
  | .seq n d xs, .seq m d' ys => n = m ∧ d = d' ∧ equivList xs ys
  | .ptr none, .ptr none => True
  | .ptr (some (p, x)), .ptr (some (q, y)) => p = q ∧ x.Equiv y
  | .strct xs, .strct ys => equivList xs ys
  | .map n d es, .map m d' fs => n = m ∧ d = d' ∧ ∃ gs, equivEntries es gs ∧ gs.Perm fs
  | .iface none, .iface none => True
  | .iface (some (t, x)), .iface (some (u, y)) => t = u ∧ x.Equiv y
  | .func n, .func m => n = m
  | _, _ => False
where
  equivList : List Val → List Val → Prop
    | [], [] => True
    | x :: xs, y :: ys => x.Equiv y ∧ equivList xs ys
    | _, _ => False
  equivEntries : List (Key × Val) → List (Key × Val) → Prop
    | [], [] => True
    | (k, x) :: es, (l, y) :: fs => k = l ∧ x.Equiv y ∧ equivEntries es fs
    | _, _ => False

/-- Two map entries with the same key and the same value. -/
def EntryEquiv (e f : Key × Val) : Prop := e.1 = f.1 ∧ e.2.Equiv f.2

theorem equivList_iff : ∀ {xs ys : List Val},
    Val.Equiv.equivList xs ys ↔ List.Forall₂ Val.Equiv xs ys
  | [], [] => ⟨fun _ => .nil, fun _ => trivial⟩
  | [], _ :: _ | _ :: _, [] => ⟨False.elim, nofun⟩
  | _ :: _, _ :: _ => (and_congr_right fun _ => equivList_iff).trans List.forall₂_cons.symm

theorem equivEntries_iff : ∀ {es fs : List (Key × Val)},
    Val.Equiv.equivEntries es fs ↔ List.Forall₂ EntryEquiv es fs
  | [], [] => ⟨fun _ => .nil, fun _ => trivial⟩
  | [], _ :: _ | _ :: _, [] => ⟨False.elim, nofun⟩
  | (k, x) :: es, (l, y) :: fs =>
    (and_assoc.symm.trans (and_congr_right fun _ => equivEntries_iff)).trans
      (@List.forall₂_cons _ _ EntryEquiv (k, x) (l, y) es fs).symm

mutual
theorem Val.Equiv.refl : ∀ v : Val, v.Equiv v
  | .ground _ | .func _ => rfl
  | .ptr none | .iface none => trivial
  | .seq _ _ xs => ⟨rfl, rfl, equivList_refl xs⟩
  | .ptr (some (_, x)) => ⟨rfl, Val.Equiv.refl x⟩
  | .strct xs => equivList_refl xs
  | .map _ _ es => ⟨rfl, rfl, es, equivEntries_refl es, .refl es⟩
  | .iface (some (_, x)) => ⟨rfl, Val.Equiv.refl x⟩
theorem equivList_refl : ∀ xs : List Val, Val.Equiv.equivList xs xs
  | [] => trivial
  | x :: xs => ⟨Val.Equiv.refl x, equivList_refl xs⟩
theorem equivEntries_refl : ∀ es : List (Key × Val), Val.Equiv.equivEntries es es
  | [] => trivial
  | (_, x) :: es => ⟨rfl, Val.Equiv.refl x, equivEntries_refl es⟩
end

/-! ### Inversion: the listings of a value of each kind -/

section Inversion

variable {g : Ground} {n : Bool} {d : Nat} {xs : List Val} {t : Option (Nat × Val)}
  {es : List (Key × Val)} {y : Val}

theorem Val.Equiv.ground_left (h : (Val.ground g).Equiv y) : y = .ground g := by
  cases y with
  | ground g' => exact congrArg Val.ground h.symm
  | _ => cases h

theorem Val.Equiv.seq_left (h : (Val.seq n d xs).Equiv y) :
    ∃ ys, y = .seq n d ys ∧ List.Forall₂ Val.Equiv xs ys := by
  cases y with
  | seq m d' ys => obtain ⟨rfl, rfl, h⟩ := h; exact ⟨ys, rfl, equivList_iff.mp h⟩
  | _ => cases h

/-- Two pointers with the same address, the values there listings of the same value. -/
def PtrEquiv (p q : Nat × Val) : Prop := p.1 = q.1 ∧ p.2.Equiv q.2

theorem Val.Equiv.ptr_left (h : (Val.ptr t).Equiv y) :
    ∃ t', y = .ptr t' ∧ Option.Rel PtrEquiv t t' := by
  cases y with
  | ptr t' =>
    refine ⟨t', rfl, ?_⟩
    rcases t with _ | ⟨_, _⟩ <;> rcases t' with _ | ⟨_, _⟩
    exacts [.none, h.elim, h.elim, .some h]
  | _ => rcases t with _ | ⟨_, _⟩ <;> cases h

theorem Val.Equiv.strct_left (h : (Val.strct xs).Equiv y) :
    ∃ ys, y = .strct ys ∧ List.Forall₂ Val.Equiv xs ys := by
  cases y with
  | strct ys => exact ⟨ys, rfl, equivList_iff.mp h⟩
  | _ => cases h

theorem Val.Equiv.map_left (h : (Val.map n d es).Equiv y) :
    ∃ fs, y = .map n d fs ∧ ∃ gs, List.Forall₂ EntryEquiv es gs ∧ gs.Perm fs := by
  cases y with
  | map m d' fs =>
    obtain ⟨rfl, rfl, gs, hgs, hp⟩ := h
    exact ⟨fs, rfl, gs, equivEntries_iff.mp hgs, hp⟩
  | _ => cases h

theorem Val.Equiv.iface_left {d : Option (Ty × Val)} (h : (Val.iface d).Equiv y) :
    ∃ d', y = .iface d' := by
  cases y with
  | iface d' => exact ⟨d', rfl⟩
  | _ => rcases d with _ | ⟨_, _⟩ <;> cases h

theorem Val.Equiv.func_left (h : (Val.func n).Equiv y) : y = .func n := by
  cases y with
  | func m => exact congrArg Val.func h.symm
  | _ => cases h

end Inversion

/-! ### Looking a key up -/

theorem keys_eq_of_forall₂ : ∀ {es fs : List (Key × Val)}, List.Forall₂ EntryEquiv es fs →
    es.map Prod.fst = fs.map Prod.fst
  | [], [], .nil => rfl
  | _ :: _, _ :: _, .cons h hs => by simp only [List.map_cons, h.1, keys_eq_of_forall₂ hs]

theorem lookup_rel {k : Key} : ∀ {es fs : List (Key × Val)}, List.Forall₂ EntryEquiv es fs →
    Option.Rel Val.Equiv (es.lookup k) (fs.lookup k)
  | [], [], .nil => .none
  | (a, x) :: _, (b, _) :: _, .cons ⟨hab, hxy⟩ h => by
    obtain rfl : a = b := hab
    simp only [List.lookup_cons]
    cases k == a
    · exact lookup_rel h
    · exact .some hxy

theorem rel_isNone_eq {r : Val → Val → Prop} {o o' : Option Val} (h : Option.Rel r o o') :
    o.isNone = o'.isNone := by
  cases h <;> rfl

/-- With distinct keys, the order of the entries does not change a lookup. -/
theorem lookup_perm {k : Key} {es fs : List (Key × Val)} (p : es.Perm fs)
    (h : (es.map Prod.fst).Nodup) : es.lookup k = fs.lookup k := by
  induction p with
  | nil => rfl
  | cons e _ ih =>
    obtain ⟨a, x⟩ := e
    simp only [List.lookup_cons, ih (List.nodup_cons.mp h).2]
  | swap e f es =>
    obtain ⟨a, x⟩ := e
    obtain ⟨b, y⟩ := f
    have hba : b ≠ a := by
      simp only [List.map_cons, List.nodup_cons, List.mem_cons, not_or] at h
      exact h.1.1
    simp only [List.lookup_cons]
    by_cases hkb : k = b
    · rw [hkb, beq_self_eq_true, beq_false_of_ne hba]
    · by_cases hka : k = a
      · rw [hka, beq_self_eq_true, beq_false_of_ne (hka ▸ hkb)]
      · rw [beq_false_of_ne hka, beq_false_of_ne hkb]
  | trans p₁ _ ih₁ ih₂ => exact (ih₁ h).trans (ih₂ ((p₁.map Prod.fst).nodup_iff.mp h))

theorem lookup_isSome_iff_mem {k : Key} {es : List (Key × Val)} :
    (es.lookup k).isSome ↔ k ∈ es.map Prod.fst := by
  simp only [List.lookup_isSome_iff, List.mem_map, beq_iff_eq]
  exact exists_congr fun _ => and_congr_right fun _ => eq_comm

theorem lookup_isNone_perm {k : Key} {es fs : List (Key × Val)}
    (h : (es.map Prod.fst).Perm (fs.map Prod.fst)) : (es.lookup k).isNone = (fs.lookup k).isNone := by
  have hiff := (lookup_isSome_iff_mem (k := k)).trans (h.mem_iff.trans lookup_isSome_iff_mem.symm)
  cases h1 : es.lookup k <;> cases h2 : fs.lookup k <;> simp_all

/-! ### Another listing of a value has its type -/

mutual
theorem Val.Equiv.hasType : ∀ {a a' : Val} {t : Ty}, a.Equiv a' → hasType t a → hasType t a'
  | .ground _, _, _, h, ht => by rw [h.ground_left]; exact ht
  | .seq n d xs, _, t, h, ht => by
    obtain ⟨ys, rfl, hys⟩ := h.seq_left
    cases t with
    | array k e =>
      simp only [hasType_array_seq, Bool.and_eq_true, beq_iff_eq] at ht ⊢
      exact ⟨⟨ht.1.1, hys.length_eq ▸ ht.1.2⟩, allHaveType_of_equiv hys ht.2⟩
    | slice e => exact allHaveType_of_equiv hys ht
    | _ => cases ht
  | .ptr none, _, _, h, ht => by
    obtain ⟨_, rfl, hr⟩ := h.ptr_left
    cases hr; exact ht
  | .ptr (some (_, x)), _, t, h, ht => by
    obtain ⟨_, rfl, hr⟩ := h.ptr_left
    rcases hr with ⟨⟨-, hx⟩⟩
    cases t with
    | ptr e => exact hx.hasType ht
    | _ => cases ht
  | .strct xs, _, t, h, ht => by
    obtain ⟨ys, rfl, hys⟩ := h.strct_left
    cases t with
    | strct fs => exact fieldsHaveType_of_equiv hys ht
    | _ => cases ht
  | .map n d es, _, t, h, ht => by
    obtain ⟨fs, rfl, gs, hgs, p⟩ := h.map_left
    cases t with
    | map e =>
      simp only [hasType_map_map, Bool.and_eq_true, decide_eq_true_eq] at ht ⊢
      refine ⟨(p.map Prod.fst).nodup_iff.mp (keys_eq_of_forall₂ hgs ▸ ht.1), ?_⟩
      exact entriesHaveType_iff.mpr fun e he =>
        entriesHaveType_iff.mp (entriesHaveType_of_equiv hgs ht.2) e (p.mem_iff.mpr he)
    | _ => cases ht
  | .iface none, _, _, h, ht => by
    obtain ⟨d', rfl⟩ := h.iface_left
    rcases d' with _ | ⟨_, _⟩
    exacts [ht, h.elim]
  | .iface (some (u, x)), y, t, h, ht => by
    obtain ⟨d', rfl⟩ := h.iface_left
    rcases d' with _ | ⟨u', x'⟩
    · exact h.elim
    · obtain ⟨rfl, hx⟩ := h
      cases t with
      | iface => exact hx.hasType ht
      | _ => cases ht
  | .func _, _, _, h, ht => by rw [h.func_left]; exact ht
termination_by structural a => a
theorem allHaveType_of_equiv {e : Ty} : ∀ {xs ys : List Val}, List.Forall₂ Val.Equiv xs ys →
    hasType.allHaveType e xs → hasType.allHaveType e ys
  | [], [], .nil, _ => rfl
  | _ :: _, _ :: _, .cons h hs, ht => by
    simp only [allHaveType_cons, Bool.and_eq_true] at ht ⊢
    exact ⟨h.hasType ht.1, allHaveType_of_equiv hs ht.2⟩
termination_by structural xs => xs
theorem fieldsHaveType_of_equiv : ∀ {fs : Fields} {xs ys : List Val},
    List.Forall₂ Val.Equiv xs ys → hasType.fieldsHaveType fs xs → hasType.fieldsHaveType fs ys
  | .nil, [], [], .nil, _ => rfl
  | .cons .., _ :: _, _ :: _, .cons h hs, ht => by
    simp only [fieldsHaveType_cons_cons, Bool.and_eq_true] at ht ⊢
    exact ⟨h.hasType ht.1, fieldsHaveType_of_equiv hs ht.2⟩
  | .nil, _ :: _, _, _, ht | .cons .., [], _, _, ht => by cases ht
termination_by structural _ xs => xs
theorem entriesHaveType_of_equiv {e : Ty} : ∀ {es fs : List (Key × Val)},
    List.Forall₂ EntryEquiv es fs → hasType.entriesHaveType e es → hasType.entriesHaveType e fs
  | [], [], .nil, _ => rfl
  | (_, _) :: _, (_, _) :: _, .cons h hs, ht => by
    simp only [entriesHaveType_cons, Bool.and_eq_true] at ht ⊢
    exact ⟨h.2.hasType ht.1, entriesHaveType_of_equiv hs ht.2⟩
termination_by structural es => es
end

/-! ## The same chunks -/

/-- The same chunk, its payloads listings of the same Go values. -/
def Chunk.Equiv (c d : Chunk) : Prop :=
  c.path = d.path ∧ List.Forall₂ Val.Equiv c.deleted d.deleted ∧
    List.Forall₂ Val.Equiv c.added d.added

theorem Chunk.Equiv.refl (c : Chunk) : c.Equiv c :=
  ⟨rfl, List.forall₂_same.mpr fun v _ => Val.Equiv.refl v, List.forall₂_same.mpr fun v _ => Val.Equiv.refl v⟩

/-- The same chunks in possibly another order. -/
def ChunksEquiv (cs cs' : List Chunk) : Prop := ∃ l, List.Forall₂ Chunk.Equiv cs l ∧ l.Perm cs'

/-- The same sequence of paths. -/
def SamePaths (cs cs' : List Chunk) : Prop := cs.map Chunk.path = cs'.map Chunk.path

theorem forall₂_samePaths : ∀ {cs cs' : List Chunk}, List.Forall₂ Chunk.Equiv cs cs' →
    SamePaths cs cs'
  | [], [], .nil => rfl
  | _ :: _, _ :: _, .cons hc hs => by
    simp only [SamePaths, List.map_cons, hc.1, List.cons.injEq, true_and]
    exact forall₂_samePaths hs

namespace ChunksEquiv

variable {cs cs' ds ds' : List Chunk}

theorem of_forall₂ (h : List.Forall₂ Chunk.Equiv cs cs') : ChunksEquiv cs cs' := ⟨cs', h, .refl _⟩

theorem of_perm (h : cs.Perm cs') : ChunksEquiv cs cs' :=
  ⟨cs, List.forall₂_same.mpr fun c _ => Chunk.Equiv.refl c, h⟩

theorem append (h : ChunksEquiv cs cs') (h' : ChunksEquiv ds ds') :
    ChunksEquiv (cs ++ ds) (cs' ++ ds') :=
  let ⟨l, hl, p⟩ := h
  let ⟨l', hl', p'⟩ := h'
  ⟨l ++ l', List.rel_append hl hl', p.append p'⟩

theorem perm_right (h : ChunksEquiv cs cs') (p : cs'.Perm ds) : ChunksEquiv cs ds :=
  let ⟨l, hl, p'⟩ := h
  ⟨l, hl, p'.trans p⟩

theorem perm_left (p : cs.Perm cs') (h : ChunksEquiv cs' ds) : ChunksEquiv cs ds :=
  let ⟨_, hl, p'⟩ := h
  let ⟨l', hl', p''⟩ := List.perm_comp_forall₂ p hl
  ⟨l', hl', p''.trans p'⟩

theorem flatMap {α β : Type} {R : α → β → Prop} {f : α → List Chunk} {g : β → List Chunk}
    (hfg : ∀ x y, R x y → ChunksEquiv (f x) (g y)) :
    ∀ {xs ys}, List.Forall₂ R xs ys → ChunksEquiv (xs.flatMap f) (ys.flatMap g)
  | [], [], .nil => of_forall₂ .nil
  | _ :: _, _ :: _, .cons h hs => (hfg _ _ h).append (flatMap hfg hs)

theorem paths_perm (h : ChunksEquiv cs cs') : (cs.map Chunk.path).Perm (cs'.map Chunk.path) :=
  let ⟨_, hl, p⟩ := h
  forall₂_samePaths hl ▸ p.map Chunk.path

/-- Two lists of the same chunks, both in path order, have the same sequence of paths. -/
theorem samePaths_of_sorted (h : ChunksEquiv cs cs') (hs : cs.Sorted Chunk.PathLe)
    (hs' : cs'.Sorted Chunk.PathLe) : SamePaths cs cs' :=
  List.eq_of_perm_of_sorted h.paths_perm (List.pairwise_map.mpr hs) (List.pairwise_map.mpr hs')

end ChunksEquiv

/-- A list equal to a permutation of itself entry by entry on a key without repeats is the
permutation. -/
theorem eq_of_perm_of_map_eq {α β : Type} {f : α → β} :
    ∀ {l m : List α}, l.Perm m → l.map f = m.map f → (l.map f).Nodup → l = m
  | [], [], _, _, _ => rfl
  | [], _ :: _, p, _, _ => (List.cons_ne_nil _ _ p.nil_eq.symm).elim
  | _ :: _, [], p, _, _ => (List.cons_ne_nil _ _ p.eq_nil).elim
  | x :: l, y :: m, p, hf, hn => by
    simp only [List.map_cons, List.cons.injEq] at hf
    simp only [List.map_cons, List.nodup_cons] at hn
    obtain rfl : x = y := by
      by_contra hxy
      have hx : x ∈ m := (List.mem_cons.mp (p.subset (List.mem_cons_self x l))).resolve_left hxy
      exact hn.1 (by rw [hf.2]; exact List.mem_map_of_mem f hx)
    rw [eq_of_perm_of_map_eq (List.Perm.cons_inv p) hf.2 hn.2]

/-- Same chunks up to order, with the same sequence of paths and no path twice: the same chunks
in the same order. -/
theorem ChunksEquiv.forall₂_of_nodup {cs cs' : List Chunk} (h : ChunksEquiv cs cs')
    (hp : SamePaths cs cs') (hn : (cs.map Chunk.path).Nodup) : List.Forall₂ Chunk.Equiv cs cs' := by
  obtain ⟨l, hl, p⟩ := h
  have hpaths := forall₂_samePaths hl
  rwa [← eq_of_perm_of_map_eq p (hpaths.symm.trans hp) (hpaths ▸ hn)]

/-! ## Two outcomes -/

/-- Two outcomes that both fail, or both succeed with results related by `R`. -/
def ExRel {ε α β : Type} (R : α → β → Prop) : Except ε α → Except ε β → Prop
  | .ok x, .ok y => R x y
  | .error _, .error _ => True
  | _, _ => False

namespace ExRel

variable {ε α β γ δ : Type} {R : α → β → Prop} {S : γ → δ → Prop}
  {m : Except ε α} {m' : Except ε β}

theorem isOk (h : ExRel R m m') : m.isOk = m'.isOk := by
  cases m <;> cases m' <;> first | rfl | cases h

theorem of_ok {x : α} {y : β} (h : ExRel R m m') (hm : m = .ok x) (hm' : m' = .ok y) : R x y := by
  subst hm hm'; exact h

theorem of_isOk (h : m.isOk = m'.isOk) (hr : ∀ x y, m = .ok x → m' = .ok y → R x y) :
    ExRel R m m' := by
  cases m <;> cases m' <;> first | exact hr _ _ rfl rfl | trivial

theorem bind {f : α → Except ε γ} {f' : β → Except ε δ} (h : ExRel R m m')
    (hf : ∀ x y, m = .ok x → m' = .ok y → R x y → ExRel S (f x) (f' y)) :
    ExRel S (m >>= f) (m' >>= f') := by
  cases m <;> cases m' <;> first | exact hf _ _ rfl rfl h | trivial

theorem refl {R : α → α → Prop} (hR : ∀ x, R x x) (m : Except ε α) : ExRel R m m := by
  cases m
  · trivial
  · exact hR _

end ExRel

/-! ### The `reflect.Value` operations on two listings -/

section Operations

variable {a a' : Option Val}

theorem valueElems_rel (h : Option.Rel Val.Equiv a a') :
    ExRel (List.Forall₂ Val.Equiv) (valueElems a) (valueElems a') := by
  rcases h with ⟨h⟩ | _
  · rename_i x x'
    cases x with
    | seq n d xs => obtain ⟨ys, rfl, hys⟩ := h.seq_left; exact hys
    | ground g => obtain rfl := h.ground_left; trivial
    | ptr t => obtain ⟨_, rfl, -⟩ := h.ptr_left; trivial
    | strct xs => obtain ⟨_, rfl, -⟩ := h.strct_left; trivial
    | map n d es => obtain ⟨_, rfl, -⟩ := h.map_left; trivial
    | iface d => obtain ⟨_, rfl⟩ := h.iface_left; trivial
    | func n => obtain rfl := h.func_left; trivial
  · trivial

theorem valueField_rel (i : Nat) (h : Option.Rel Val.Equiv a a') :
    ExRel Val.Equiv (valueField a i) (valueField a' i) := by
  rcases h with ⟨h⟩ | _
  · rename_i x x'
    cases x with
    | strct xs =>
      obtain ⟨ys, rfl, hys⟩ := h.strct_left
      simp only [valueField]
      rcases List.forall₂_iff_get.mp hys with ⟨hlen, hget⟩
      by_cases hi : i < xs.length
      · rw [List.getElem?_eq_getElem hi, List.getElem?_eq_getElem (hlen ▸ hi)]
        exact hget i hi (hlen ▸ hi)
      · rw [List.getElem?_eq_none (by omega), List.getElem?_eq_none (by omega)]; trivial
    | ground g => obtain rfl := h.ground_left; trivial
    | seq n d xs => obtain ⟨_, rfl, -⟩ := h.seq_left; trivial
    | ptr t => obtain ⟨_, rfl, -⟩ := h.ptr_left; trivial
    | map n d es => obtain ⟨_, rfl, -⟩ := h.map_left; trivial
    | iface d => obtain ⟨_, rfl⟩ := h.iface_left; trivial
    | func n => obtain rfl := h.func_left; trivial
  · trivial

theorem indirect_rel (h : Option.Rel Val.Equiv a a') :
    Option.Rel Val.Equiv (indirect a) (indirect a') := by
  rcases h with ⟨h⟩ | _
  · rename_i x x'
    cases x with
    | ptr t =>
      obtain ⟨t', rfl, ht⟩ := h.ptr_left
      rcases ht with ⟨⟨-, hv⟩⟩ | _
      exacts [.some hv, .none]
    | ground g => obtain rfl := h.ground_left; exact .some h
    | seq n d xs => obtain ⟨_, rfl, -⟩ := h.seq_left; exact .some h
    | strct xs => obtain ⟨_, rfl, -⟩ := h.strct_left; exact .some h
    | map n d es => obtain ⟨_, rfl, -⟩ := h.map_left; exact .some h
    | iface d => obtain ⟨_, rfl⟩ := h.iface_left; exact .some h
    | func n => obtain rfl := h.func_left; exact .some h
  · exact .none

end Operations

end Flux.Remote
