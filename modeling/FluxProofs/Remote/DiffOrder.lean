/-
`Diff` and the order of map entries. `MapKeys` enumerates a map's keys in an unspecified order,
and `diffMap` sorts its chunks by path with `sort.Sort`, which is not stable. Over two listings of
the same values (`Val.Equiv`), `Diff` fails on both or succeeds on both; when it succeeds, the two
chunk lists have the same sequence of paths and hold the same chunks, and when no path repeats
they are the same list. Two chunks can share a path, though (a key `"x][y"` beside a key `"x"`
holding a map with key `"y"`), and then their order follows the order of the entries.
-/
import FluxProofs.Remote.Equiv
import FluxProofs.Remote.Differences

namespace Flux.Remote

/-! ## The differences of two listings -/

section Lift

variable {D D' : Val → Val → String → List Chunk} {P : Val → Prop}
  (hD : ∀ x x' y y' p, P x → P y → x.Equiv x' → y.Equiv y' → ChunksEquiv (D x y p) (D' x' y' p))
include hD

theorem enumDifferences_equiv (path : String) : ∀ (i : Nat) {xs xs' ys ys' : List Val},
    List.Forall₂ Val.Equiv xs xs' → List.Forall₂ Val.Equiv ys ys' → (∀ x ∈ xs, P x) →
      (∀ y ∈ ys, P y) →
      ChunksEquiv (((xs.zip ys).enumFrom i).flatMap fun e => D e.2.1 e.2.2 (below path (.index e.1)))
        (((xs'.zip ys').enumFrom i).flatMap fun e => D' e.2.1 e.2.2 (below path (.index e.1)))
  | i, _ :: _, _ :: _, _ :: _, _ :: _, .cons hx hxs, .cons hy hys, hPx, hPy => by
    simp only [List.zip_cons_cons, List.enumFrom_cons, List.flatMap_cons]
    exact (hD _ _ _ _ _ (hPx _ (List.mem_cons_self _ _)) (hPy _ (List.mem_cons_self _ _)) hx hy).append
      (enumDifferences_equiv path (i + 1) hxs hys (fun x h => hPx x (List.mem_cons_of_mem _ h))
        fun y h => hPy y (List.mem_cons_of_mem _ h))
  | _, [], [], _, _, .nil, _, _, _ => .of_forall₂ (by simp)
  | _, _ :: _, _ :: _, [], [], .cons _ _, .nil, _, _ => .of_forall₂ (by simp)

theorem seqDifferences_equiv {path : String} {xs xs' ys ys' : List Val}
    (hx : List.Forall₂ Val.Equiv xs xs') (hy : List.Forall₂ Val.Equiv ys ys') (hPx : ∀ x ∈ xs, P x)
    (hPy : ∀ y ∈ ys, P y) :
    ChunksEquiv (seqDifferences D path xs ys) (seqDifferences D' path xs' ys') := by
  refine (enumDifferences_equiv hD path 0 hx hy hPx hPy).append (.of_forall₂ ?_)
  unfold surplus
  rw [hx.length_eq, hy.length_eq]
  split_ifs
  · exact .cons ⟨rfl, List.forall₂_drop _ hx, .nil⟩ .nil
  · exact .cons ⟨rfl, .nil, List.forall₂_drop _ hy⟩ .nil
  · exact .nil

/-- The differences of two maps against those of their entries listed in the same order. -/
theorem mapDifferences_forall₂ {path : String} {ea ga eb gb : List (Key × Val)}
    (ha : List.Forall₂ EntryEquiv ea ga) (hb : List.Forall₂ EntryEquiv eb gb)
    (hPa : ∀ e ∈ ea, P e.2) (hPb : ∀ e ∈ eb, P e.2) :
    ChunksEquiv (mapDifferences D path ea eb) (mapDifferences D' path ga gb) := by
  refine .append (.flatMap (R := fun e g => P e.2 ∧ EntryEquiv e g) (fun e g ⟨hP, hk, he⟩ => ?_)
    ((List.forall₂_and_left _ _).mpr ⟨hPa, ha⟩)) (.of_forall₂ (List.rel_map ?_ (List.rel_filter ?_ hb)))
  · rw [← hk]
    rcases hlk : eb.lookup e.1 with _ | vb <;> rcases hlk' : gb.lookup e.1 with _ | vb' <;>
      have hr := @lookup_rel e.1 _ _ hb <;> rw [hlk, hlk'] at hr <;> cases hr
    · exact .of_forall₂ (.cons ⟨rfl, .cons he .nil, .nil⟩ .nil)
    · exact hD _ _ _ _ _ hP (hPb _ (lookup_mem hlk)) he ‹_›
  · intro e g ⟨hk, he⟩
    exact ⟨congrArg (fun k => below path (.key k)) hk, .nil, .cons he .nil⟩
  · intro e g ⟨hk, _⟩
    simp only [hk, rel_isNone_eq (lookup_rel ha)]

end Lift

/-- With distinct keys, the differences of two maps do not depend on the order of their
entries. -/
theorem mapDifferences_perm {D : Val → Val → String → List Chunk} {path : String}
    {ga ea gb eb : List (Key × Val)} (hnb : (gb.map Prod.fst).Nodup) (pa : ga.Perm ea) (pb : gb.Perm eb) :
    (mapDifferences D path ga gb).Perm (mapDifferences D path ea eb) := by
  have hlk : ∀ k, gb.lookup k = eb.lookup k := fun k => lookup_perm pb hnb
  have hnone : ∀ k, (ga.lookup k).isNone = (ea.lookup k).isNone := fun k =>
    lookup_isNone_perm (pa.map Prod.fst)
  simp only [mapDifferences, hlk, hnone]
  exact (pa.flatMap_right _).append ((pb.filter _).map _)

mutual
/-- The differences of two listings of the same values are the same chunks. -/
theorem differences_equiv : ∀ (t : Ty) (a a' b b' : Val) (path : String),
    hasType t a → hasType t b → a.Equiv a' → b.Equiv b' →
      ChunksEquiv (differences t a b path) (differences t a' b' path)
  | .ground, a, a', b, b', path, ha, hb, hea, heb => by
    obtain ⟨x, rfl⟩ := hasType_ground ha
    obtain ⟨y, rfl⟩ := hasType_ground hb
    rw [hea.ground_left, heb.ground_left]
    exact .of_perm (.refl _)
  | .array _ e, a, a', b, b', path, ha, hb, hea, heb
  | .slice e, a, a', b, b', path, ha, hb, hea, heb => by
    obtain ⟨_, _, xs, rfl, hxs⟩ := hasType_elems (by first | exact .inl ha | exact .inr ⟨_, ha⟩)
    obtain ⟨_, _, ys, rfl, hys⟩ := hasType_elems (by first | exact .inl hb | exact .inr ⟨_, hb⟩)
    obtain ⟨xs', rfl, hx⟩ := hea.seq_left
    obtain ⟨ys', rfl, hy⟩ := heb.seq_left
    exact seqDifferences_equiv (fun x x' y y' p => differences_equiv e x x' y y' p) hx hy hxs hys
  | .iface, _, _, _, _, _, _, _, _, _ | .func, _, _, _, _, _, _, _, _, _ => .of_perm (.refl [])
  | .ptr e, a, a', b, b', path, ha, hb, hea, heb => by
    obtain ⟨ta, rfl⟩ : ∃ ta, a = .ptr ta := by
      rcases hasType_ptr ha with rfl | ⟨_, _, rfl, -⟩ <;> exact ⟨_, rfl⟩
    obtain ⟨tb, rfl⟩ : ∃ tb, b = .ptr tb := by
      rcases hasType_ptr hb with rfl | ⟨_, _, rfl, -⟩ <;> exact ⟨_, rfl⟩
    obtain ⟨ta', rfl, hra⟩ := hea.ptr_left
    obtain ⟨tb', rfl, hrb⟩ := heb.ptr_left
    rcases hra with ⟨⟨-, hx⟩⟩ | _ <;> rcases hrb with ⟨⟨-, hy⟩⟩ | _
    · exact differences_equiv e _ _ _ _ path ha hb hx hy
    all_goals exact .of_perm (.refl [])
  | .strct fs, a, a', b, b', path, ha, hb, hea, heb => by
    obtain ⟨xs, rfl, hxs⟩ := hasType_strct ha
    obtain ⟨ys, rfl, hys⟩ := hasType_strct hb
    obtain ⟨xs', rfl, hx⟩ := hea.strct_left
    obtain ⟨ys', rfl, hy⟩ := heb.strct_left
    exact fieldDifferences_equiv fs xs xs' ys ys' path hxs hys hx hy
  | .map e, a, a', b, b', path, ha, hb, hea, heb => by
    obtain ⟨_, _, ea, rfl, -, hPa⟩ := hasType_map ha
    obtain ⟨_, _, eb, rfl, hnb, hPb⟩ := hasType_map hb
    obtain ⟨ea', rfl, ga, hga, pa⟩ := hea.map_left
    obtain ⟨eb', rfl, gb, hgb, pb⟩ := heb.map_left
    exact (mapDifferences_forall₂ (fun x x' y y' p => differences_equiv e x x' y y' p) hga hgb hPa
      hPb).perm_right (mapDifferences_perm (keys_eq_of_forall₂ hgb ▸ hnb) pa pb)

theorem fieldDifferences_equiv : ∀ (fs : Fields) (xs xs' ys ys' : List Val) (path : String),
    hasType.fieldsHaveType fs xs → hasType.fieldsHaveType fs ys →
    List.Forall₂ Val.Equiv xs xs' → List.Forall₂ Val.Equiv ys ys' →
      ChunksEquiv (fieldDifferences fs xs ys path) (fieldDifferences fs xs' ys' path)
  | .cons name exported t fs, x :: xs, x' :: xs', y :: ys, y' :: ys', path, hx, hy,
    .cons hxx hxs, .cons hyy hys => by
    simp only [fieldsHaveType_cons_cons, Bool.and_eq_true] at hx hy
    refine .append ?_ (fieldDifferences_equiv fs xs xs' ys ys' path hx.2 hy.2 hxs hys)
    cases exported
    · exact .of_perm (.refl [])
    · exact differences_equiv t x x' y y' _ hx.1 hy.1 hxx hyy
  | .nil, _, _, _, _, _, _, _, _, _ => .of_perm (by cases ‹List Val› <;> rfl)
  | .cons .., [], _, _, _, _, hx, _, _, _ => by cases hx
  | .cons .., _ :: _, _, [], _, _, _, hy, _, _ => by cases hy
end

/-! ## Runs of `diffValue` on two listings -/

theorem SamePaths.append {cs cs' ds ds' : List Chunk} (h : SamePaths cs cs')
    (h' : SamePaths ds ds') : SamePaths (cs ++ ds) (cs' ++ ds') := by
  unfold SamePaths at *
  rw [List.map_append, List.map_append, h, h']

/-- The shape of every loop of the diff: a chunk list, then the rest, appended. -/
theorem ExRel.bind_append {m m' n n' : Except DiffFailure (List Chunk)}
    (h : ExRel SamePaths m m') (h' : ExRel SamePaths n n') :
    ExRel SamePaths (do let c ← m; let r ← n; pure (c ++ r))
      (do let c ← m'; let r ← n'; pure (c ++ r)) :=
  h.bind fun _ _ _ _ hc => h'.bind fun _ _ _ _ hr => hc.append hr

theorem isOk_bind_pure {α : Type} (m : Except DiffFailure α) (f : α → List Chunk) :
    (m >>= fun x => pure (f x)).isOk = m.isOk := by
  cases m <;> rfl

theorem isOk_bind_append (m n : Except DiffFailure (List Chunk)) :
    (do let c ← m; let r ← n; pure (c ++ r)).isOk = (m.isOk && n.isOk) := by
  cases m <;> cases n <;> rfl

section Lift

variable {d d' : Val → Val → String → Except DiffFailure (List Chunk)} {P : Val → Prop}

theorem diffKeysA_cons (path : String) (eb : List (Key × Val)) (k : Key) (va : Val)
    (ea : List (Key × Val)) : diffKeysA d path eb ((k, va) :: ea) =
      ((match eb.lookup k with
        | some vb => d va vb (keyPath path k)
        | none => pure [removed va (keyPath path k)]) >>= fun c =>
      diffKeysA d path eb ea >>= fun rest => pure (c ++ rest)) := by
  rw [diffKeysA]
  cases eb.lookup k <;> rfl

theorem diffKeysA_isOk_iff (path : String) (eb : List (Key × Val)) :
    ∀ ea : List (Key × Val), (diffKeysA d path eb ea).isOk ↔
      ∀ e ∈ ea, ∀ vb, eb.lookup e.1 = some vb → (d e.2 vb (keyPath path e.1)).isOk
  | [] => iff_of_true rfl fun _ h => nomatch h
  | (k, va) :: ea => by
    rw [diffKeysA_cons, isOk_bind_append, Bool.and_eq_true, diffKeysA_isOk_iff path eb ea,
      List.forall_mem_cons]
    refine and_congr_left' ?_
    cases eb.lookup k
    · exact iff_of_true rfl fun _ h => nomatch h
    · simp

/-- Which entries of `a` the first loop of `diffMap` visits first does not decide whether it
fails. -/
theorem diffKeysA_isOk_perm {path : String} {eb eb' ea ea' : List (Key × Val)}
    (hlk : ∀ k, eb.lookup k = eb'.lookup k) (p : ea.Perm ea') :
    (diffKeysA d path eb ea).isOk = (diffKeysA d path eb' ea').isOk := by
  refine Bool.eq_iff_iff.mpr ((diffKeysA_isOk_iff path eb ea).trans
    (Iff.trans ?_ (diffKeysA_isOk_iff path eb' ea').symm))
  simp only [hlk]
  exact ⟨fun h e he => h e (p.mem_iff.mpr he), fun h e he => h e (p.mem_iff.mp he)⟩

theorem diffMap_sorted {path : String} {s : ChunkSort} {a b : Option Val} {cs : List Chunk}
    (h : diffMap d path s a b = .ok cs) : cs.Sorted Chunk.PathLe := by
  unfold diffMap at h
  split at h
  · simp only [bind_eq_ok, pure_eq_ok] at h
    obtain ⟨_, -, rfl⟩ := h
    exact s.sorted _
  · cases h

variable (hd : ∀ x x' y y' p, P x → P y → x.Equiv x' → y.Equiv y' →
  ExRel SamePaths (d x y p) (d' x' y' p))
include hd

theorem diffCommon_samePaths (path : String) : ∀ (i : Nat) {xs xs' ys ys' : List Val},
    List.Forall₂ Val.Equiv xs xs' → List.Forall₂ Val.Equiv ys ys' → (∀ x ∈ xs, P x) →
      (∀ y ∈ ys, P y) → ExRel SamePaths (diffCommon d path i xs ys) (diffCommon d' path i xs' ys')
  | i, _ :: _, _ :: _, _ :: _, _ :: _, .cons hx hxs, .cons hy hys, hPx, hPy =>
    ExRel.bind_append (hd _ _ _ _ _ (hPx _ (List.mem_cons_self _ _)) (hPy _ (List.mem_cons_self _ _))
      hx hy) (diffCommon_samePaths path (i + 1) hxs hys
        (fun x h => hPx x (List.mem_cons_of_mem _ h)) fun y h => hPy y (List.mem_cons_of_mem _ h))
  | _, [], [], _, _, .nil, _, _, _ => rfl
  | _, _ :: _, _ :: _, [], [], .cons _ _, .nil, _, _ => rfl

theorem diffArrayOrSlice_samePaths {path : String} {a a' b b' : Option Val}
    (hra : Option.Rel Val.Equiv a a') (hrb : Option.Rel Val.Equiv b b')
    (hPa : ∀ xs, valueElems a = .ok xs → ∀ x ∈ xs, P x)
    (hPb : ∀ ys, valueElems b = .ok ys → ∀ y ∈ ys, P y) :
    ExRel SamePaths (diffArrayOrSlice d path a b) (diffArrayOrSlice d' path a' b') :=
  (valueElems_rel hra).bind fun xs _ hxs _ hx => (valueElems_rel hrb).bind fun ys _ hys _ hy =>
    (diffCommon_samePaths hd path 0 hx hy (hPa xs hxs) (hPb ys hys)).bind fun _ _ _ _ hc => by
      simp only [hx.length_eq, hy.length_eq]
      split_ifs
      exacts [hc.append rfl, hc.append rfl, hc]

theorem diffKeysA_samePaths (path : String) {eb gb : List (Key × Val)}
    (hb : List.Forall₂ EntryEquiv eb gb) (hPb : ∀ e ∈ eb, P e.2) :
    ∀ {ea ga : List (Key × Val)}, List.Forall₂ EntryEquiv ea ga → (∀ e ∈ ea, P e.2) →
      ExRel SamePaths (diffKeysA d path eb ea) (diffKeysA d' path gb ga)
  | [], [], .nil, _ => rfl
  | (k, va) :: _, (_, va') :: _, .cons ⟨rfl, he⟩ hs, hPa => by
    rw [diffKeysA_cons, diffKeysA_cons]
    refine ExRel.bind_append ?_ (diffKeysA_samePaths path hb hPb hs
      fun e h => hPa e (List.mem_cons_of_mem _ h))
    have hr := @lookup_rel k _ _ hb
    rcases hlk : eb.lookup k with _ | vb <;> rcases hlk' : gb.lookup k with _ | vb' <;>
      rw [hlk, hlk'] at hr <;> cases hr
    · rfl
    · exact hd _ _ _ _ _ (hPa _ (List.mem_cons_self _ _)) (hPb _ (lookup_mem hlk)) he ‹_›

end Lift

/-! ### The typing of a `reflect.Value` -/

section Typing

variable {a a' : Option Val}

theorem ground_rel_eq (h : Option.Rel Val.Equiv a a') (ha : a.all (hasType .ground)) : a' = a := by
  rcases h with ⟨h⟩ | _
  · obtain ⟨g, rfl⟩ := hasType_ground ha
    rw [h.ground_left]
  · rfl

theorem valueElems_typed {e : Ty} (ha : a.all (hasType (.slice e)) ∨ ∃ n, a.all (hasType (.array n e)))
    {xs : List Val} (h : valueElems a = .ok xs) : ∀ x ∈ xs, hasType e x := by
  obtain ⟨_, _, rfl⟩ := valueElems_eq_ok.mp h
  obtain ⟨_, _, _, h, hxs⟩ := hasType_elems ha
  cases h; exact hxs

theorem indirect_typed {e : Ty} (ha : a.all (hasType (.ptr e))) : (indirect a).all (hasType e) := by
  rcases a with _ | x
  · rfl
  · rcases hasType_ptr ha with rfl | ⟨_, y, rfl, hy⟩
    exacts [rfl, hy]

/-- The fields from index `i` on have the types `fs` lists, or the value is the zero Value. -/
def FieldsFrom (fs : Fields) (i : Nat) (a : Option Val) : Prop :=
  a = none ∨ hasType.fieldsHaveType fs ((structFields a).drop i)

theorem FieldsFrom.tail {name : String} {ex : Bool} {t : Ty} {fs : Fields} {i : Nat}
    (ha : FieldsFrom (.cons name ex t fs) i a) : FieldsFrom fs (i + 1) a := by
  refine ha.imp_right fun h => ?_
  rcases hxs : (structFields a).drop i with _ | ⟨x, rest⟩
  · rw [hxs] at h; cases h
  · rw [hxs, fieldsHaveType_cons_cons, Bool.and_eq_true] at h
    rw [← List.tail_drop, hxs]
    exact h.2

theorem FieldsFrom.field {name : String} {ex : Bool} {t : Ty} {fs : Fields} {i : Nat} {x : Val}
    (ha : FieldsFrom (.cons name ex t fs) i a) (hx : valueField a i = .ok x) : hasType t x := by
  have hxi := valueField_eq_ok.mp hx
  rcases ha with rfl | h
  · cases hxi
  · rw [← List.head?_drop] at hxi
    rcases hd : (structFields a).drop i with _ | ⟨y, r⟩ <;> rw [hd] at h hxi <;> cases hxi
    rw [fieldsHaveType_cons_cons, Bool.and_eq_true] at h
    exact h.1

end Typing

mutual
/-- `diffValue` on two listings of the same values: both fail, or both succeed with the same
sequence of paths. -/
theorem diffValue_samePaths (s : ChunkSort) : ∀ (t : Ty) (a a' b b' : Option Val) (path : String),
    a.all (hasType t) → b.all (hasType t) → Option.Rel Val.Equiv a a' →
      Option.Rel Val.Equiv b b' →
        ExRel SamePaths (diffValue s t a b path) (diffValue s t a' b' path)
  | .ground, a, a', b, b', path, ha, hb, hra, hrb => by
    rw [ground_rel_eq hra ha, ground_rel_eq hrb hb]
    exact ExRel.refl (R := SamePaths) (fun _ => rfl) _
  | .array _ e, a, a', b, b', path, ha, hb, hra, hrb
  | .slice e, a, a', b, b', path, ha, hb, hra, hrb =>
    diffArrayOrSlice_samePaths (fun x x' y y' p hx hy hxx hyy =>
      diffValue_samePaths s e (some x) (some x') (some y) (some y') p hx hy (.some hxx) (.some hyy))
      hra hrb (fun _ => valueElems_typed (by first | exact .inl ha | exact .inr ⟨_, ha⟩))
      (fun _ => valueElems_typed (by first | exact .inl hb | exact .inr ⟨_, hb⟩))
  | .iface, _, _, _, _, _, _, _, _, _ | .func, _, _, _, _, _, _, _, _, _ => trivial
  | .ptr e, a, a', b, b', path, ha, hb, hra, hrb =>
    diffValue_samePaths s e _ _ _ _ path (indirect_typed ha) (indirect_typed hb) (indirect_rel hra)
      (indirect_rel hrb)
  | .strct fs, a, a', b, b', path, ha, hb, hra, hrb => by
    have typed : ∀ {a : Option Val}, a.all (hasType (.strct fs)) → FieldsFrom fs 0 a := by
      intro a ha
      rcases a with _ | x
      · exact .inl rfl
      · obtain ⟨xs, rfl, hxs⟩ := hasType_strct ha
        exact .inr hxs
    exact diffStruct_samePaths s fs 0 a a' b b' path (typed ha) (typed hb) hra hrb
  | .map e, _, _, _, _, path, ha, hb, .some hxx, .some hyy => by
    obtain ⟨_, _, ea, rfl, -, hPa⟩ := hasType_map ha
    obtain ⟨ea', rfl, ga, hga, pa⟩ := hxx.map_left
    obtain ⟨_, _, eb, rfl, hnb, hPb⟩ := hasType_map hb
    obtain ⟨eb', rfl, gb, hgb, pb⟩ := hyy.map_left
    refine ExRel.of_isOk ?_ fun cs cs' h h' => ?_
    · show (diffKeysA _ path eb ea >>= _).isOk = (diffKeysA _ path eb' ea' >>= _).isOk
      rw [isOk_bind_pure, isOk_bind_pure, (diffKeysA_samePaths (fun x x' y y' p hx hy hxx hyy =>
        diffValue_samePaths s e (some x) (some x') (some y) (some y') p hx hy (.some hxx)
          (.some hyy)) path hgb hPb hga hPa).isOk]
      exact diffKeysA_isOk_perm (fun k => lookup_perm pb (keys_eq_of_forall₂ hgb ▸ hnb)) pa
    · have hce : ChunksEquiv cs cs' := .perm_left (diffValue_perm s _ _ _ path cs ha hb h)
        ((differences_equiv (.map e) _ _ _ _ path ha hb hxx hyy).perm_right
          (diffValue_perm s _ _ _ path cs' (hxx.hasType ha) (hyy.hasType hb) h').symm)
      exact hce.samePaths_of_sorted (diffMap_sorted h) (diffMap_sorted h')
  | .map _, _, _, _, _, _, ha, _, .some hxx, .none => by
    obtain ⟨_, _, _, rfl, -⟩ := hasType_map ha
    obtain ⟨_, rfl, -⟩ := hxx.map_left
    trivial
  | .map _, _, _, _, _, _, _, _, .none, _ => trivial

theorem diffStruct_samePaths (s : ChunkSort) : ∀ (fs : Fields) (i : Nat) (a a' b b' : Option Val)
    (path : String), FieldsFrom fs i a → FieldsFrom fs i b → Option.Rel Val.Equiv a a' →
      Option.Rel Val.Equiv b b' →
        ExRel SamePaths (diffStruct s fs i a b path) (diffStruct s fs i a' b' path)
  | .nil, _, _, _, _, _, _, _, _, _, _ => rfl
  | .cons name exported t fs, i, a, a', b, b', path, ha, hb, hra, hrb => by
    cases exported with
    | false =>
      rw [diffStruct_unexported, diffStruct_unexported]
      exact diffStruct_samePaths s fs (i + 1) a a' b b' path ha.tail hb.tail hra hrb
    | true =>
      rw [diffStruct_exported, diffStruct_exported]
      exact (valueField_rel i hra).bind fun x x' hx _ hxx => (valueField_rel i hrb).bind
        fun y y' hy _ hyy => ExRel.bind_append
          (diffValue_samePaths s t (some x) (some x') (some y) (some y') _ (ha.field hx)
            (hb.field hy) (.some hxx) (.some hyy))
          (diffStruct_samePaths s fs (i + 1) a a' b b' path ha.tail hb.tail hra hrb)
end

/-! ## `Diff` and the order of map entries -/

/-- `Diff` on two listings of the same values, their maps' entries in any `MapKeys` order: both
runs fail or both succeed, and then the two chunk lists have the same sequence of paths and hold
the same chunks; when no path repeats, they are the same list. -/
theorem diff_map_order_independent (s : ChunkSort) (t : Ty) (a a' b b' : Val) (ha : hasType t a)
    (hb : hasType t b) (hea : a.Equiv a') (heb : b.Equiv b') :
    (diff s t a t b).isOk = (diff s t a' t b').isOk ∧
      ∀ cs cs', diff s t a t b = .ok cs → diff s t a' t b' = .ok cs' →
        cs.map Chunk.path = cs'.map Chunk.path ∧ ChunksEquiv cs cs' ∧
          ((cs.map Chunk.path).Nodup → List.Forall₂ Chunk.Equiv cs cs') := by
  rw [diff_same, diff_same]
  have hrel := diffValue_samePaths s t (some a) (some a') (some b) (some b') "" ha hb (.some hea)
    (.some heb)
  refine ⟨hrel.isOk, fun cs cs' h h' => ?_⟩
  have hce : ChunksEquiv cs cs' := .perm_left (diffValue_perm s t _ _ _ cs ha hb h)
    ((differences_equiv t a a' b b' "" ha hb hea heb).perm_right
      (diffValue_perm s t _ _ _ cs' (hea.hasType ha) (heb.hasType hb) h').symm)
  have hsp : SamePaths cs cs' := hrel.of_ok h h'
  exact ⟨hsp, hce, hce.forall₂_of_nodup hsp⟩

/-- `map[string]map[string]int` -/
def collisionTy : Ty := .map (.map .ground)

/-- `{"x": {"y": 1}, "x][y": {}}`, listed with `"x"` first. -/
def collisionA : Val :=
  .map false 1 [(.str "x", .map false 2 [(.str "y", .ground (.int 1))]), (.str "x][y", .map false 3 [])]

/-- The same map, listed with `"x][y"` first. -/
def collisionA' : Val :=
  .map false 1 [(.str "x][y", .map false 3 []), (.str "x", .map false 2 [(.str "y", .ground (.int 1))])]

/-- `{"x": {"y": 2}}` -/
def collisionB : Val := .map false 4 [(.str "x", .map false 5 [(.str "y", .ground (.int 2))])]

theorem collisionA_reordered : collisionA.Equiv collisionA' :=
  ⟨rfl, rfl, _, equivEntries_refl _, .swap _ _ _⟩

theorem diff_map_order_independent_collision :
    hasType collisionTy collisionA ∧ hasType collisionTy collisionB ∧
      ((diff insertionChunkSort collisionTy collisionA collisionTy collisionB).isOk =
          (diff insertionChunkSort collisionTy collisionA' collisionTy collisionB).isOk ∧
        ∀ cs cs', diff insertionChunkSort collisionTy collisionA collisionTy collisionB = .ok cs →
          diff insertionChunkSort collisionTy collisionA' collisionTy collisionB = .ok cs' →
            cs.map Chunk.path = cs'.map Chunk.path ∧ ChunksEquiv cs cs' ∧
              ((cs.map Chunk.path).Nodup → List.Forall₂ Chunk.Equiv cs cs')) :=
  ⟨rfl, rfl, diff_map_order_independent insertionChunkSort collisionTy collisionA collisionA'
    collisionB collisionB rfl rfl collisionA_reordered (Val.Equiv.refl _)⟩

/-- The removed key `"x][y"` and the changed `["x"]["y"]` share the path `[x][y]`: their order in
`Diff`'s result is the order `MapKeys` lists the keys in. -/
theorem diff_map_order_collision :
    collisionA.Equiv collisionA' ∧
      diff insertionChunkSort collisionTy collisionA collisionTy collisionB =
        .ok [changed (.ground (.int 1)) (.ground (.int 2)) "[x][y]",
          removed (.map false 3 []) "[x][y]"] ∧
      diff insertionChunkSort collisionTy collisionA' collisionTy collisionB =
        .ok [removed (.map false 3 []) "[x][y]",
          changed (.ground (.int 1)) (.ground (.int 2)) "[x][y]"] ∧
      ¬ List.Forall₂ Chunk.Equiv
        [changed (.ground (.int 1)) (.ground (.int 2)) "[x][y]", removed (.map false 3 []) "[x][y]"]
        [removed (.map false 3 []) "[x][y]", changed (.ground (.int 1)) (.ground (.int 2)) "[x][y]"] :=
  ⟨collisionA_reordered, rfl, rfl, fun h => by
    cases h with
    | cons hc _ => cases hc.2.1 with
      | cons hv _ => exact hv⟩

end Flux.Remote
