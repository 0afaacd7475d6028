import Mathlib.Data.DFinsupp.WellFounded
import Mathlib.Data.Set.Card
import Mathlib.Logic.Relation
import OmniMesh.Lib.Walk

/-!
# Label-correcting search

Dijkstra's loop with a heap that may hold outdated entries, on a graph whose costs may be negative. A
vertex is labelled with the cost of the best walk found so far and with its predecessor on it; labels
stay below a bound. The loop ends exactly when no live walk runs into a negative cycle.
-/

namespace LabelSearch

structure State (V 𝕜 : Type*) where
  dist : V → Option 𝕜
  pred : V → Option V
  heap : List (𝕜 × V)

section
variable {V 𝕜 : Type*} {s : State V 𝕜} {v : V}

/-- The vertices whose predecessor is known, each below its predecessor. -/
def Tree (s : State V 𝕜) (a b : V) : Prop := s.pred b = some a

structure Trail (s : State V 𝕜) (current : V) (path : List V) : Prop where
  nodup : path.Nodup
  above : ∀ v ∈ path, Relation.ReflTransGen (Tree s) current v

theorem Trail.singleton : Trail s v [v] :=
  ⟨List.nodup_singleton v, fun _ hm => List.mem_singleton.mp hm ▸ .refl⟩

end

section
variable {V 𝕜 : Type*} [LinearOrder 𝕜] {B : 𝕜} {r s t : State V 𝕜} {v : V}

/-- Every label of `t` is that of `s`, or is better and has its entry in the heap; the new entries are
those of labels. -/
structure Improves (B : 𝕜) (s t : State V 𝕜) : Prop where
  dist : ∀ v, t.dist v = s.dist v ∨
    ∃ x, t.dist v = some x ∧ x < (s.dist v).getD B ∧ (x, v) ∈ t.heap
  heap : s.heap ⊆ t.heap
  pushed : ∀ e ∈ t.heap, e ∈ s.heap ∨ ∃ x, t.dist e.2 = some x ∧ x ≤ e.1

namespace Improves

theorem refl : Improves B s s := ⟨fun _ => .inl rfl, fun _ h => h, fun _ h => .inl h⟩

theorem getD_le (h : Improves B s t) (v : V) : (t.dist v).getD B ≤ (s.dist v).getD B := by
  rcases h.dist v with he | ⟨x, hx, hlt, -⟩
  · rw [he]
  · rw [hx]
    exact hlt.le

theorem label {x} (h : Improves B s t) (hx : s.dist v = some x) : ∃ y, t.dist v = some y ∧ y ≤ x := by
  rcases h.dist v with he | ⟨y, hy, hlt, -⟩
  · exact ⟨x, he.trans hx, le_rfl⟩
  · rw [hx] at hlt
    exact ⟨y, hy, hlt.le⟩

theorem trans (h : Improves B s t) (h' : Improves B t r) : Improves B s r where
  dist v := by
    rcases h'.dist v with he | ⟨x, hx, hlt, hmem⟩
    · rcases h.dist v with he' | ⟨x, hx, hlt, hmem⟩
      · exact .inl (he.trans he')
      · exact .inr ⟨x, he.trans hx, hlt, h'.heap hmem⟩
    · exact .inr ⟨x, hx, hlt.trans_le (h.getD_le v), hmem⟩
  heap _ he := h'.heap (h.heap he)
  pushed e he := by
    rcases h'.pushed e he with he | hx
    · rcases h.pushed e he with he | ⟨x, hx, hle⟩
      · exact .inl he
      · obtain ⟨y, hy, hle'⟩ := h'.label hx
        exact .inr ⟨y, hy, hle'.trans hle⟩
    · exact .inr hx

end Improves

def Stale (s : State V 𝕜) (e : 𝕜 × V) : Prop := ∃ b, s.dist e.2 = some b ∧ b < e.1

/-! ### How far the labels can still improve -/

variable {C : Set 𝕜} {x : 𝕜}

/-- How many costs of `C` a label may still be improved to. -/
noncomputable def rank (C : Set 𝕜) : Option 𝕜 → ℕ
  | none => C.ncard + 1
  | some x => {c ∈ C | c < x}.ncard

theorem rank_lt (hC : C.Finite) {d : Option 𝕜} (hx : x ∈ C) (hd : ∀ y, d = some y → x < y) :
    rank C (some x) < rank C d := by
  cases d with
  | none => exact Nat.lt_succ_of_le (Set.ncard_le_ncard (Set.sep_subset ..) hC)
  | some y =>
      have hxy := hd y rfl
      refine Set.ncard_lt_ncard ⟨fun c hc => ⟨hc.1, hc.2.trans hxy⟩, fun hsub => ?_⟩
        (hC.subset (Set.sep_subset ..))
      exact lt_irrefl x (hsub ⟨hx, hxy⟩).2

/-- The labels' ranks first, then the entries of the heap. -/
noncomputable def energy (C : Set 𝕜) (s : State V 𝕜) : (V → ℕ) ×ₗ ℕ :=
  toLex (fun v => rank C (s.dist v), s.heap.length)

theorem energy_lt_of_improves (hC : C.Finite) (himp : Improves B s t)
    (ht : ∀ v x, t.dist v = some x → x ∈ C)
    (hlt : ∃ v x, t.dist v = some x ∧ x < (s.dist v).getD B) : energy C t < energy C s := by
  have hbelow {v x} (hx : t.dist v = some x) (hlt : x < (s.dist v).getD B) :
      rank C (t.dist v) < rank C (s.dist v) := by
    rw [hx]
    refine rank_lt hC (ht v x hx) fun y hy => ?_
    rwa [hy] at hlt
  refine Prod.Lex.toLex_lt_toLex.mpr (.inl (Pi.lt_def.mpr ⟨fun v => ?_, ?_⟩))
  · rcases himp.dist v with he | ⟨x, hx, hlt, -⟩
    · exact (congrArg (rank C) he).le
    · exact (hbelow hx hlt).le
  · obtain ⟨v, x, hx, hlt⟩ := hlt
    exact ⟨v, hbelow hx hlt⟩

theorem energy_erase_lt [DecidableEq V] {e} (he : e ∈ s.heap) :
    energy C { s with heap := s.heap.erase e } < energy C s := by
  refine Prod.Lex.toLex_lt_toLex.mpr (.inr ⟨rfl, ?_⟩)
  rw [List.length_erase_of_mem he]
  exact Nat.sub_lt (List.length_pos_of_mem he) Nat.one_pos

end

/-! ## The loop -/

variable {V 𝕜 : Type*} [AddCommGroup 𝕜]

section
variable [DecidableEq V] {start u : V}

def init (start : V) : State V 𝕜 :=
  ⟨Function.update (fun _ => none) start (some 0), fun _ => none, [(0, start)]⟩

theorem init_dist_self : (init start : State V 𝕜).dist start = some 0 := by
  simp [init]

theorem init_dist_of_ne (h : u ≠ start) : (init start : State V 𝕜).dist u = none := by
  simp [init, h]

end

variable [LinearOrder 𝕜] {G : V → List (V × 𝕜)} {B w : 𝕜} {start u v : V} {s t : State V 𝕜} {l : V × 𝕜}

section
variable [DecidableEq V]

def relax (B : 𝕜) (u : V) (w : 𝕜) (s : State V 𝕜) (l : V × 𝕜) : State V 𝕜 :=
  if w + l.2 < (s.dist l.1).getD B then
    ⟨Function.update s.dist l.1 (some (w + l.2)), Function.update s.pred l.1 (some u),
      (w + l.2, l.1) :: s.heap⟩
  else s

/-- One turn of the loop: a cheapest entry is taken off the heap, and unless it is stale the links out
of its vertex are relaxed, in any order. -/
inductive Step (G : V → List (V × 𝕜)) (B : 𝕜) (s : State V 𝕜) : State V 𝕜 → Prop
  | skip {e : 𝕜 × V} : e ∈ s.heap → (∀ e' ∈ s.heap, e.1 ≤ e'.1) → Stale s e →
      Step G B s { s with heap := s.heap.erase e }
  | visit {e : 𝕜 × V} {order : List (V × 𝕜)} : e ∈ s.heap → (∀ e' ∈ s.heap, e.1 ≤ e'.1) →
      ¬ Stale s e → order.Perm (G e.2) →
      Step G B s (order.foldl (relax B e.2 e.1) { s with heap := s.heap.erase e })

/-! ### Labels only improve -/

theorem relax_improves : Improves B s (relax B u w s l) := by
  unfold relax
  split
  · rename_i hlt
    refine ⟨fun v => ?_, List.subset_cons_self _ _, fun e he => ?_⟩
    · by_cases hv : v = l.1
      · subst hv
        exact .inr ⟨_, Function.update_self .., hlt, List.mem_cons_self⟩
      · exact .inl (Function.update_of_ne hv ..)
    · rcases List.mem_cons.mp he with rfl | he
      · exact .inr ⟨_, Function.update_self .., le_rfl⟩
      · exact .inl he
  · exact .refl

theorem relax_label (h : w + l.2 < (s.dist l.1).getD B) :
    (relax B u w s l).dist l.1 = some (w + l.2) := by
  rw [relax, if_pos h]
  exact Function.update_self ..

theorem relax_dist_of_ne (h : v ≠ l.1) : (relax B u w s l).dist v = s.dist v := by
  unfold relax
  split
  · exact Function.update_of_ne h ..
  · rfl

theorem relax_pred (h : w + l.2 < (s.dist l.1).getD B) :
    (relax B u w s l).pred = Function.update s.pred l.1 (some u) := by
  rw [relax, if_pos h]

theorem relax_settles : ((relax B u w s l).dist l.1).getD B ≤ w + l.2 := by
  by_cases hlt : w + l.2 < (s.dist l.1).getD B
  · rw [relax_label hlt]
    exact le_rfl
  · rw [relax, if_neg hlt]
    exact not_lt.mp hlt

theorem foldl_improves (order : List (V × 𝕜)) : Improves B s (order.foldl (relax B u w) s) := by
  induction order generalizing s with
  | nil => exact .refl
  | cons l order ih => exact relax_improves.trans ih

theorem foldl_settles {order : List (V × 𝕜)} (h : l ∈ order) :
    ((order.foldl (relax B u w) s).dist l.1).getD B ≤ w + l.2 := by
  induction order generalizing s with
  | nil => cases h
  | cons l' order ih =>
      rcases List.mem_cons.mp h with rfl | h
      · exact ((foldl_improves order).getD_le _).trans relax_settles
      · exact ih h

theorem foldl_eq_or_lt (order : List (V × 𝕜)) : order.foldl (relax B u w) s = s ∨
    ∃ v x, (order.foldl (relax B u w) s).dist v = some x ∧ x < (s.dist v).getD B := by
  induction order generalizing s with
  | nil => exact .inl rfl
  | cons l order ih =>
      rw [List.foldl_cons]
      by_cases hlt : w + l.2 < (s.dist l.1).getD B
      · right
        have himp : Improves B (relax B u w s l) (order.foldl (relax B u w) (relax B u w s l)) :=
          foldl_improves order
        obtain ⟨x, hx, hle⟩ := himp.label (relax_label hlt)
        exact ⟨l.1, x, hx, hle.trans_lt hlt⟩
      · rw [relax, if_neg hlt]
        exact ih

/-! ### A vertex that no link leads to is never labelled -/

theorem foldl_dist_of_not_mem {order : List (V × 𝕜)} (h : ∀ l ∈ order, l.1 ≠ v) :
    (order.foldl (relax B u w) s).dist v = s.dist v := by
  induction order generalizing s with
  | nil => rfl
  | cons l order ih =>
      rw [List.foldl_cons, ih fun l hm => h l (List.mem_cons_of_mem _ hm)]
      exact relax_dist_of_ne (h l List.mem_cons_self).symm

theorem Step.dist_eq (h : ∀ u, ∀ l ∈ G u, l.1 ≠ v) (hs : Step G B s t) : t.dist v = s.dist v := by
  cases hs with
  | skip _ _ _ => rfl
  | visit _ _ _ hperm => exact foldl_dist_of_not_mem fun l hm => h _ l (hperm.subset hm)

end

/-! ## What holds in every run -/

/-- Each label has its entry in the heap, or the links out of its vertex improve nothing. -/
structure Scheduled (G : V → List (V × 𝕜)) (B : 𝕜) (start : V) (s : State V 𝕜) : Prop where
  start : ∃ x, s.dist start = some x ∧ x ≤ 0
  heap : ∀ e ∈ s.heap, ∃ x, s.dist e.2 = some x ∧ x ≤ e.1
  open_or_settled : ∀ u x, s.dist u = some x →
    (x, u) ∈ s.heap ∨ ∀ l ∈ G u, (s.dist l.1).getD B ≤ x + l.2

theorem Scheduled.label_eq {e} (h : Scheduled G B start s) (he : e ∈ s.heap) (hst : ¬ Stale s e) :
    s.dist e.2 = some e.1 := by
  obtain ⟨x, hx, hle⟩ := h.heap e he
  rcases hle.lt_or_eq with hlt | rfl
  · exact absurd ⟨x, hx, hlt⟩ hst
  · exact hx

theorem init_scheduled [DecidableEq V] : Scheduled G B start (init start) where
  start := ⟨0, init_dist_self, le_rfl⟩
  heap e he := by
    rw [List.mem_singleton.mp he]
    exact ⟨0, init_dist_self, le_rfl⟩
  open_or_settled u x hx := by
    by_cases hu : u = start
    · subst hu
      rw [init_dist_self] at hx
      cases hx
      exact .inl List.mem_cons_self
    · rw [init_dist_of_ne hu] at hx
      cases hx

theorem Scheduled.step [DecidableEq V] (h : Scheduled G B start s) (hs : Step G B s t) : Scheduled G B start t := by
  cases hs with
  | @skip e he hmin hst =>
      refine ⟨h.start, fun e' he' => h.heap e' (List.mem_of_mem_erase he'), fun u x hx => ?_⟩
      rcases h.open_or_settled u x hx with hmem | hset
      · refine .inl ((List.mem_erase_of_ne ?_).mpr hmem)
        rintro rfl
        obtain ⟨b, hb, hlt⟩ := hst
        rw [hx] at hb
        cases hb
        exact lt_irrefl _ hlt
      · exact .inr hset
  | @visit e order he hmin hst hperm =>
      have himp : Improves B { s with heap := s.heap.erase e } _ := foldl_improves (u := e.2) (w := e.1) order
      obtain ⟨x₀, hx₀, hle₀⟩ := h.start
      obtain ⟨y₀, hy₀, hle₁⟩ := himp.label hx₀
      refine ⟨⟨y₀, hy₀, hle₁.trans hle₀⟩, fun e' he' => ?_, fun u x hx => ?_⟩
      · rcases himp.pushed e' he' with he' | hx
        · obtain ⟨x, hx, hle⟩ := h.heap e' (List.mem_of_mem_erase he')
          obtain ⟨y, hy, hle'⟩ := himp.label hx
          exact ⟨y, hy, hle'.trans hle⟩
        · exact hx
      · rcases himp.dist u with hsame | ⟨y, hy, -, hmem⟩
        · rw [hsame] at hx
          rcases h.open_or_settled u x hx with hmem | hset
          · by_cases hxe : (x, u) = e
            · subst hxe
              exact .inr fun l hl => foldl_settles (hperm.mem_iff.mpr hl)
            · exact .inl (himp.heap ((List.mem_erase_of_ne hxe).mpr hmem))
          · exact .inr fun l hl => (himp.getD_le l.1).trans (hset l hl)
        · rw [hx] at hy
          cases hy
          exact .inl hmem

/-! ## Labels of simple walks -/

/-- A live walk from `a` on which no label exceeds the cost so far. -/
inductive Labelled (G : V → List (V × 𝕜)) (B : 𝕜) (dist : V → Option 𝕜) (a : V) :
    List V → 𝕜 → Prop
  | nil {z} : dist a = some z → z ≤ 0 → Labelled G B dist a [a] 0
  | snoc {u p w v c z} : Labelled G B dist a (u :: p) w → (v, c) ∈ G u → w + c < B →
      dist v = some z → z ≤ w + c → Labelled G B dist a (v :: u :: p) (w + c)

namespace Labelled

variable {dist dist' : V → Option 𝕜} {a : V} {p : List V}

theorem walk (h : Labelled G B dist a p w) : Walk G B a 0 p w := by
  induction h with
  | nil => exact .nil
  | snoc _ hl hb _ _ ih => exact .snoc ih hl hb

theorem mono (hmono : ∀ v z, dist v = some z → ∃ z', dist' v = some z' ∧ z' ≤ z)
    (h : Labelled G B dist a p w) : Labelled G B dist' a p w := by
  induction h with
  | nil hz hle =>
      obtain ⟨z', hz', hle'⟩ := hmono _ _ hz
      exact .nil hz' (hle'.trans hle)
  | snoc _ hl hb hz hle ih =>
      obtain ⟨z', hz', hle'⟩ := hmono _ _ hz
      exact .snoc ih hl hb hz' (hle'.trans hle)

theorem split (h : Labelled G B dist a p w) (hv : v ∈ p) :
    ∃ u p₀ p' w' z q, p = u :: p₀ ∧ Walk G B a 0 (v :: p') w' ∧ Walk G B v w' (u :: q) w ∧
      dist v = some z ∧ z ≤ w' := by
  induction h with
  | nil hz hle =>
      cases List.mem_singleton.mp hv
      exact ⟨v, [], [], 0, _, [], rfl, .nil, .nil, hz, hle⟩
  | @snoc u p w y c z hw hl hb hz hle ih =>
      rcases List.mem_cons.mp hv with rfl | hv
      · exact ⟨v, u :: p, u :: p, w + c, z, [], rfl, .snoc hw.walk hl hb, .nil, hz, hle⟩
      · obtain ⟨u', p₀, p', w', z', q, he, hto, hfrom, hz', hle'⟩ := ih hv
        cases he
        exact ⟨y, u :: p, p', w', z', u :: q, rfl, hto, .snoc hfrom hl hb, hz', hle'⟩

/-- A link that improves a label leads off the walk it extends. -/
theorem not_mem_of_lt (h : Labelled G B dist a (u :: p) w) (hB : 0 < B) (hno : ¬ NegCycle G B a) (hl : l ∈ G u)
    (hlt : w + l.2 < (dist l.1).getD B) : l.1 ∉ u :: p := by
  intro hmem
  obtain ⟨u', p₀, p', w', z, q, he, hto, hfrom, hz, hle⟩ := h.split hmem
  cases he
  rw [hz] at hlt
  have hback : w + l.2 < w' := hlt.trans_le hle
  exact hno ⟨l.1, p', w', u :: q, w + l.2, hto,
    .snoc hfrom hl (hback.trans (hto.lt_bound hB)), hback⟩

end Labelled

structure Settling (G : V → List (V × 𝕜)) (B : 𝕜) (start : V) (s : State V 𝕜) : Prop where
  label : ∀ v x, s.dist v = some x →
    ∃ p, Labelled G B s.dist start (v :: p) x ∧ (v :: p).Nodup
  pred : ∀ a b, Tree s a b → ∃ c x y, (b, c) ∈ G a ∧ s.dist a = some x ∧ s.dist b = some y ∧ x + c ≤ y
  acyclic : ∀ v, ¬ Relation.TransGen (Tree s) v v

theorem init_settling [DecidableEq V] : Settling G B start (init start) where
  label v x hx := by
    by_cases hv : v = start
    · subst hv
      rw [init_dist_self] at hx
      cases hx
      exact ⟨[], .nil init_dist_self le_rfl, List.nodup_singleton v⟩
    · rw [init_dist_of_ne hv] at hx
      cases hx
  pred a b h := by cases h
  acyclic v h := by
    obtain ⟨u, -, hu⟩ := Relation.TransGen.tail'_iff.mp h
    cases hu

theorem Settling.getD_le_bound (hB : 0 < B) (h : Settling G B start s) : (s.dist v).getD B ≤ B := by
  cases hd : s.dist v with
  | none => exact le_rfl
  | some x =>
      obtain ⟨p, hp, -⟩ := h.label v x hd
      exact (hp.walk.lt_bound hB).le

theorem Settling.wellFounded_tree [Finite V] (h : Settling G B start s) : WellFounded (Tree s) := by
  have : Std.Irrefl (Relation.TransGen (Tree s)) := ⟨h.acyclic⟩
  have hwf : WellFounded (Relation.TransGen (Tree s)) := Finite.wellFounded_of_trans_of_irrefl _
  exact Subrelation.wf (fun h => .single h) hwf

theorem Trail.back {path} (hs : Settling G B start s) (h : Trail s v path) (hu : Tree s u v) :
    Trail s u (path ++ [u]) := by
  have hnot : u ∉ path := fun hm => hs.acyclic u (.head' hu (h.above u hm))
  refine ⟨List.nodup_append.mpr ⟨h.nodup, List.nodup_singleton u, ?_⟩, fun a ha => ?_⟩
  · rintro a ha b hb rfl
    exact hnot (List.mem_singleton.mp hb ▸ ha)
  · rcases List.mem_append.mp ha with ha | ha
    · exact .head hu (h.above a ha)
    · exact List.mem_singleton.mp ha ▸ .refl

def simpleCosts (G : V → List (V × 𝕜)) (B : 𝕜) (start : V) : Set 𝕜 :=
  {w | ∃ p : List V, p.Nodup ∧ Walk G B start 0 p w}

theorem Settling.mem_simpleCosts {x} (h : Settling G B start s) (hx : s.dist v = some x) :
    x ∈ simpleCosts G B start := by
  obtain ⟨p, hp, hnd⟩ := h.label v x hx
  exact ⟨v :: p, hnd, hp.walk⟩

theorem Settling.energy_lt [DecidableEq V] [Finite V] (h : Settling G B start t) (hs : Step G B s t) :
    energy (simpleCosts G B start) t < energy (simpleCosts G B start) s := by
  cases hs with
  | skip he _ _ => exact energy_erase_lt he
  | @visit e order he _ _ _ =>
      refine lt_of_le_of_lt ?_ (energy_erase_lt he)
      rcases foldl_eq_or_lt (B := B) (u := e.2) (w := e.1) (s := { s with heap := s.heap.erase e }) order
        with heq | hlt
      · rw [heq]
      · exact (energy_lt_of_improves Walk.finite_nodup_costs (foldl_improves order)
          (fun v x => h.mem_simpleCosts) hlt).le

/-! ## A negative cycle keeps the loop busy -/

variable [IsOrderedAddMonoid 𝕜]

/-- When no link improves a label, a walk cannot outrun the labels. -/
theorem label_of_walk {a x z p}
    (hset : ∀ u x, s.dist u = some x → ∀ l ∈ G u, (s.dist l.1).getD B ≤ x + l.2)
    (ha : s.dist a = some z) (hz : z ≤ x) (hw : Walk G B a x (v :: p) w) :
    ∃ y, s.dist v = some y ∧ y ≤ z + (w - x) := by
  generalize hq : v :: p = q at hw
  induction hw generalizing v p with
  | nil =>
      cases hq
      exact ⟨z, ha, by rw [sub_self, add_zero]⟩
  | @snoc u q w d c _ hl hb ih =>
      obtain ⟨rfl, rfl⟩ := List.cons.inj hq
      obtain ⟨y, hy, hle⟩ := ih rfl
      have hyw : y ≤ w :=
        calc y ≤ z + (w - x) := hle
          _ ≤ x + (w - x) := add_le_add hz le_rfl
          _ = w := add_sub_cancel x w
      have hlink := hset u y hy _ hl
      cases hd : s.dist v with
      | none =>
          rw [hd] at hlink
          exact absurd (hlink.trans (add_le_add hyw le_rfl)) (not_le.mpr hb)
      | some y' =>
          rw [hd] at hlink
          refine ⟨y', rfl, hlink.trans ?_⟩
          calc y + c ≤ z + (w - x) + c := add_le_add hle le_rfl
            _ = z + (w + c - x) := by rw [add_assoc, sub_add_eq_add_sub]

theorem Scheduled.heap_ne_nil (h : Scheduled G B start s) (hneg : NegCycle G B start) :
    s.heap ≠ [] := by
  intro hnil
  obtain ⟨v, p, w, q, w', hw, hcycle, hlt⟩ := hneg
  have hset : ∀ u x, s.dist u = some x → ∀ l ∈ G u, (s.dist l.1).getD B ≤ x + l.2 := by
    intro u x hx
    rcases h.open_or_settled u x hx with hmem | hset
    · rw [hnil] at hmem
      cases hmem
    · exact hset
  obtain ⟨z, hz, hle⟩ := h.start
  obtain ⟨y, hy, hyw⟩ := label_of_walk hset hz hle hw
  have hyw' : y ≤ w := by
    rw [sub_zero] at hyw
    exact hyw.trans (add_le_of_nonpos_left hle)
  obtain ⟨y', hy', hle'⟩ := label_of_walk hset hy hyw' hcycle
  rw [hy] at hy'
  cases hy'
  exact absurd hlt (not_lt.mpr (sub_nonneg.mp (le_add_iff_nonneg_right y |>.mp hle')))

/-! ## Without a negative cycle the loop keeps to simple walks and ends -/

/-- Along the predecessors, from the label of `v` on, runs a live walk below the labels. -/
theorem Settling.walk_of_tree {x} (hB : 0 < B) (h : Settling G B start s) (hx : s.dist v = some x)
    (ht : Relation.ReflTransGen (Tree s) v u) :
    ∃ q w' y, Walk G B v x (u :: q) w' ∧ s.dist u = some y ∧ w' ≤ y := by
  induction ht with
  | refl => exact ⟨[], x, x, .nil, hx, le_rfl⟩
  | @tail b d _ hbd ih =>
      obtain ⟨q, w', y, hw, hy, hle⟩ := ih
      obtain ⟨c, x', y', hl, hx', hy', hle'⟩ := h.pred b d hbd
      rw [hy] at hx'
      cases hx'
      have hcost : w' + c ≤ y' := (add_le_add hle le_rfl).trans hle'
      obtain ⟨p, hp, -⟩ := h.label d y' hy'
      exact ⟨b :: q, w' + c, y', .snoc hw hl (hcost.trans_lt (hp.walk.lt_bound hB)), hy', hcost⟩

section
variable [DecidableEq V] {f : V → Option V}

/-- A path in the new tree is one in the old tree, or passes the new link: it is reached from the new
link's end. -/
theorem path_from_new {a b} (h : Relation.TransGen (fun a b => Function.update f v (some u) b = some a) a b) :
    Relation.TransGen (fun a b => f b = some a) a b ∨
      Relation.ReflTransGen (fun a b => f b = some a) v b := by
  induction h with
  | @single b hb =>
      by_cases hv : b = v
      · exact .inr (hv ▸ .refl)
      · rw [Function.update_of_ne hv] at hb
        exact .inl (.single hb)
  | @tail b d _ hd ih =>
      by_cases hv : d = v
      · exact .inr (hv ▸ .refl)
      · rw [Function.update_of_ne hv] at hd
        exact ih.imp (·.tail hd) (·.tail hd)

theorem path_to_new {a b} (h : Relation.TransGen (fun a b => Function.update f v (some u) b = some a) a b) :
    Relation.TransGen (fun a b => f b = some a) a b ∨
      Relation.ReflTransGen (fun a b => f b = some a) a u := by
  induction h using Relation.TransGen.head_induction_on with
  | @single a hb =>
      by_cases hv : b = v
      · subst hv
        rw [Function.update_self] at hb
        cases hb
        exact .inr .refl
      · rw [Function.update_of_ne hv] at hb
        exact .inl (.single hb)
  | @head a d hd _ ih =>
      by_cases hv : d = v
      · subst hv
        rw [Function.update_self] at hd
        cases hd
        exact .inr .refl
      · rw [Function.update_of_ne hv] at hd
        exact ih.imp (.head hd) (.head hd)

end

section
variable (hB : 0 < B) (hno : ¬ NegCycle G B start) (h : Settling G B start s)
  (hu : s.dist u = some w) (hl : l ∈ G u)
include hB hno h hu hl

/-- A link that improves a label does not close a cycle of predecessors. -/
theorem Settling.not_tree_of_lt (hlt : w + l.2 < (s.dist l.1).getD B) (hne : l.1 ≠ u) :
    ¬ Relation.ReflTransGen (Tree s) l.1 u := by
  intro ht
  obtain ⟨b, hb, -⟩ := (Relation.ReflTransGen.cases_head ht).resolve_left hne
  obtain ⟨-, x, -, -, hx, -, -⟩ := h.pred _ _ hb
  obtain ⟨q, w', y, hw, hy, hle⟩ := h.walk_of_tree hB hx ht
  rw [hu] at hy
  cases hy
  rw [hx] at hlt
  have hback : w' + l.2 < x := (add_le_add hle le_rfl).trans_lt hlt
  obtain ⟨p, hp, -⟩ := h.label _ _ hx
  exact hno ⟨l.1, p, x, u :: q, w' + l.2, hp.walk,
    .snoc hw hl (hback.trans (hp.walk.lt_bound hB)), hback⟩

variable [DecidableEq V]

theorem Settling.relax_of_lt (hlt : w + l.2 < (s.dist l.1).getD B) :
    Settling G B start (relax B u w s l) ∧ (relax B u w s l).dist u = some w := by
  obtain ⟨p, hp, hnd⟩ := h.label u w hu
  have hnot : l.1 ∉ u :: p := hp.not_mem_of_lt hB hno hl hlt
  have hne : l.1 ≠ u := fun he => hnot (he ▸ List.mem_cons_self)
  have himp : Improves B s (relax B u w s l) := relax_improves
  have hmono {v z} (hz : s.dist v = some z) := himp.label hz
  have hnew : (relax B u w s l).dist l.1 = some (w + l.2) := relax_label hlt
  have hkeep : (relax B u w s l).dist u = some w := (relax_dist_of_ne hne.symm).trans hu
  have hbound : w + l.2 < B := hlt.trans_le (h.getD_le_bound hB)
  refine ⟨⟨fun v x hx => ?_, fun a b hab => ?_, fun v hv => ?_⟩, hkeep⟩
  · by_cases hv : v = l.1
    · subst hv
      rw [hnew] at hx
      cases hx
      exact ⟨u :: p, .snoc (hp.mono fun _ _ => hmono) hl hbound hnew le_rfl,
        List.nodup_cons.mpr ⟨hnot, hnd⟩⟩
    · rw [relax_dist_of_ne hv] at hx
      obtain ⟨q, hq, hqnd⟩ := h.label v x hx
      exact ⟨q, hq.mono fun _ _ => hmono, hqnd⟩
  · rw [Tree, relax_pred hlt] at hab
    by_cases hb : b = l.1
    · subst hb
      rw [Function.update_self] at hab
      cases hab
      exact ⟨l.2, w, w + l.2, hl, hkeep, hnew, le_rfl⟩
    · rw [Function.update_of_ne hb] at hab
      obtain ⟨c, x, y, hc, hx, hy, hle⟩ := h.pred a b hab
      obtain ⟨x', hx', hle'⟩ := hmono hx
      exact ⟨c, x', y, hc, hx', (relax_dist_of_ne hb).trans hy, (add_le_add hle' le_rfl).trans hle⟩
  · unfold Tree at hv
    rw [relax_pred hlt] at hv
    have hfrom := (path_from_new hv).resolve_left (h.acyclic v)
    have hto := (path_to_new hv).resolve_left (h.acyclic v)
    exact h.not_tree_of_lt hB hno hu hl hlt hne (hfrom.trans hto)

theorem Settling.relax :
    Settling G B start (relax B u w s l) ∧ (LabelSearch.relax B u w s l).dist u = some w := by
  by_cases hlt : w + l.2 < (s.dist l.1).getD B
  · exact h.relax_of_lt hB hno hu hl hlt
  · rw [LabelSearch.relax, if_neg hlt]
    exact ⟨h, hu⟩

end

variable [DecidableEq V]

theorem Settling.foldl (hB : 0 < B) (hno : ¬ NegCycle G B start) {order : List (V × 𝕜)}
    (h : Settling G B start s) (hu : s.dist u = some w) (hsub : order ⊆ G u) :
    Settling G B start (order.foldl (LabelSearch.relax B u w) s) := by
  induction order generalizing s with
  | nil => exact h
  | cons l order ih =>
      obtain ⟨h', hu'⟩ := h.relax hB hno hu (hsub List.mem_cons_self)
      exact ih h' hu' fun _ hm => hsub (List.mem_cons_of_mem _ hm)

theorem Settling.step (hB : 0 < B) (hno : ¬ NegCycle G B start) (h : Settling G B start s)
    (hsch : Scheduled G B start s) (hs : Step G B s t) : Settling G B start t := by
  cases hs with
  | skip _ _ _ => exact ⟨h.label, h.pred, h.acyclic⟩
  | @visit e order he _ hst hperm =>
      have hrest : Settling G B start { s with heap := s.heap.erase e } :=
        ⟨h.label, h.pred, h.acyclic⟩
      exact hrest.foldl hB hno (hsch.label_eq he hst) hperm.subset

theorem Settling.acc [Finite V] (hB : 0 < B) (hno : ¬ NegCycle G B start) (h : Settling G B start s)
    (hsch : Scheduled G B start s) : Acc (fun t s => Step G B s t) s := by
  induction hm : energy (simpleCosts G B start) s using WellFoundedLT.induction generalizing s with
  | ind m ih =>
      subst hm
      refine Acc.intro s fun t ht => ?_
      have h' := h.step hB hno hsch ht
      exact ih _ (h'.energy_lt ht) h' (hsch.step ht) rfl

end LabelSearch
