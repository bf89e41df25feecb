import Keybox.Proofs.Log.Handlers
import Mathlib.Data.List.Nodup
import Mathlib.Data.List.TakeWhile

/-!
# Lineages of names

A name lies under each of its beginnings that end just before a point, and under the root logger's
name. A record goes up from the logger it is given to, and it does not reach all of these.

Going up from a name, the search for the next logger steps over every second point of a run of
points: it finds a beginning when an odd number of points follow it. The root logger's own name gets
in the way as well: a logger whose name is a beginning of `root` does not take in one that was made
before it.

**Results.** The names that the search comes by are the beginnings that an odd number of points
follow. So the loggers that get a record are found in one pass over all beginnings, the longest
first: each that was made gets the record from the last one that got it, unless an even number of
points stand between them or it is a beginning of `root` and the younger of the two. A beginning
that a single point follows is passed over for the second reason only.
-/

namespace Keybox

/-! ## Beginnings of a name -/

namespace Loggers

/-- A name lies under another one that it continues with a point. -/
def LiesUnder
    (name outer : Text) : Prop :=
  ∃ rest, name = outer ++ chr '.' :: rest

/-- The beginnings of a name that end just before a point, the shortest first. -/
def beginnings : Text → List Text
  | [] => []
  | c :: rest =>
    if c = chr '.' then [] :: (beginnings rest).map (c :: ·) else (beginnings rest).map (c :: ·)

/-- How many points stand one after another in a name right behind one of its beginnings. -/
def pointsAfter
    (outer name : Text) : Nat :=
  ((name.drop outer.length).takeWhile (· = chr '.')).length

/-- The names over a name, the longest first and the root logger's last. -/
def ancestors (name : Text) : List Text :=
  if name = rootName then []
  else (beginnings name).reverse.filter (fun outer => outer ≠ [] ∧ outer ≠ rootName) ++ [rootName]

variable
  {name outer last p rest : Text}

theorem mem_beginnings_iff :
    p ∈ beginnings name ↔ LiesUnder name p := by
  induction name generalizing p with
  | nil =>
      simp [beginnings, LiesUnder]
  | cons c t ih =>
      have hlonger : p ∈ (beginnings t).map (c :: ·) ↔ ∃ q, p = c :: q ∧ LiesUnder t q := by
        simp only [List.mem_map, ih, eq_comm, and_comm]
      have hunder : LiesUnder (c :: t) p ↔
          p = [] ∧ c = chr '.' ∨ ∃ q, p = c :: q ∧ LiesUnder t q := by
        cases p with
        | nil =>
            simp [LiesUnder]
        | cons d q =>
            simp [LiesUnder, eq_comm (a := c), and_assoc]
      rw [beginnings, hunder, ← hlonger]
      split
      · next hpoint =>
        simp [hpoint]
      · next hpoint =>
        simp [hpoint]

theorem beginnings_append
    (s t : Text) :
    beginnings (s ++ t) = beginnings s ++ (beginnings t).map (s ++ ·) := by
  induction s with
  | nil =>
      simp [beginnings]
  | cons c s ih =>
      rw [List.cons_append, beginnings, beginnings, ih]
      split <;> simp [Function.comp_def]

theorem nodup_beginnings
    (name : Text) :
    (beginnings name).Nodup := by
  induction name with
  | nil =>
      exact List.nodup_nil
  | cons c t ih =>
      have hlonger : ((beginnings t).map (c :: ·)).Nodup :=
        ih.map fun _ _ h => (List.cons.inj h).2
      rw [beginnings]
      split
      · exact List.nodup_cons.mpr ⟨by simp, hlonger⟩
      · exact hlonger

/-- What stands before a beginning in the list are that one's own beginnings. -/
theorem beginnings_of_append_cons
    {before after : List Text}
    (h : beginnings name = before ++ p :: after) :
    before = beginnings p := by
  have hmem : p ∈ beginnings name := by
    rw [h]
    exact List.mem_append_right _ List.mem_cons_self
  obtain ⟨rest, rfl⟩ := mem_beginnings_iff.mp hmem
  rw [beginnings_append, beginnings, if_pos rfl, List.map_cons, List.append_nil] at h
  -- The beginning occurs once, so both ways of splitting the list at it are the same.
  have hnodup := nodup_beginnings (p ++ chr '.' :: rest)
  rw [beginnings_append, beginnings, if_pos rfl, List.map_cons, List.append_nil] at hnodup
  obtain ⟨-, hlonger, happart⟩ := List.nodup_append.mp hnodup
  have hshorter : p ∉ beginnings p := fun hp => happart p hp p List.mem_cons_self rfl
  exact ((List.append_cons_inj_of_notMem hshorter (List.nodup_cons.mp hlonger).1).mp h).1.symm

/-- What stands before a beginning, when the longest come first, lies under it. -/
theorem liesUnder_of_before
    {before after : List Text}
    (h : (beginnings name).reverse = before ++ outer :: after)
    (hp : p ∈ before) :
    LiesUnder p outer := by
  obtain ⟨longer, between, rfl⟩ := List.append_of_mem hp
  have hback : beginnings name =
      (after.reverse ++ outer :: between.reverse) ++ p :: longer.reverse := by
    rw [← List.reverse_inj, h]
    simp
  rw [← mem_beginnings_iff, ← beginnings_of_append_cons hback]
  exact List.mem_append_right _ List.mem_cons_self

theorem mem_ancestors_iff :
    outer ∈ ancestors name ↔
      name ≠ rootName ∧ (outer = rootName ∨ outer ≠ [] ∧ LiesUnder name outer) := by
  rw [ancestors]
  split
  · next hroot =>
    simp [hroot]
  · next hroot =>
    by_cases houter : outer = rootName <;> simp [hroot, houter, mem_beginnings_iff, and_comm]

theorem nodup_cons_ancestors
    (name : Text) :
    (name :: ancestors name).Nodup := by
  refine List.nodup_cons.mpr ⟨?_, ?_⟩
  · intro hmem
    obtain ⟨hroot, heq | ⟨-, rest, heq⟩⟩ := mem_ancestors_iff.mp hmem
    · exact hroot heq
    · have hlength := congrArg List.length heq
      simp at hlength
  · rw [ancestors]
    split
    · exact List.nodup_nil
    · rw [List.nodup_append]
      refine ⟨(List.nodup_reverse.mpr (nodup_beginnings name)).filter _, List.nodup_singleton _, ?_⟩
      intro p hp q hq heq
      rw [heq, List.mem_singleton.mp hq] at hp
      simp at hp

/-! ## Points -/

theorem pointsAfter_append
    (p t : Text) :
    pointsAfter p (p ++ t) = (t.takeWhile (· = chr '.')).length := by
  rw [pointsAfter, List.drop_left]

/-- A text without points, or the parts before and after its last one. -/
theorem exists_last_point
    (t : Text)
    (h : chr '.' ∈ t) :
    ∃ v w, t = v ++ chr '.' :: w ∧ chr '.' ∉ w := by
  obtain ⟨w, v, hsplit, hw⟩ := List.eq_append_cons_of_mem (List.mem_reverse.mpr h)
  refine ⟨v.reverse, w.reverse, ?_, by simpa using hw⟩
  have hback := congrArg List.reverse hsplit
  simpa using hback

theorem lastPoint?_of_notMem
    {t : Text}
    (h : chr '.' ∉ t) :
    lastPoint? t = none := by
  have hall : t.reverse.takeWhile (fun c => c != chr '.') = t.reverse := by
    rw [List.takeWhile_eq_self_iff]
    intro c hc
    exact bne_iff_ne.mpr fun heq => h (heq ▸ List.mem_reverse.mp hc)
  rw [lastPoint?, hall, List.length_reverse]
  exact if_pos (by omega)

theorem lastPoint?_append
    {v w : Text}
    (hw : chr '.' ∉ w) :
    lastPoint? (v ++ chr '.' :: w) = if v = [] then none else some v.length := by
  have hrun : (v ++ chr '.' :: w).reverse.takeWhile (fun c => c != chr '.') = w.reverse := by
    have hall : ∀ c ∈ w.reverse, (c != chr '.') = true := by
      intro c hc
      exact bne_iff_ne.mpr fun heq => hw (heq ▸ List.mem_reverse.mp hc)
    rw [List.reverse_append, List.reverse_cons, List.append_assoc,
      List.takeWhile_append_of_pos hall]
    simp
  have hposition : (v ++ chr '.' :: w).length - w.reverse.length - 1 = v.length := by
    simp only [List.length_append, List.length_cons, List.length_reverse]
    omega
  rw [lastPoint?, hrun]
  simp only [hposition, List.length_eq_zero_iff]

theorem takeWhile_point_eq_nil
    {t : Text}
    (h : t.head? ≠ some (chr '.')) :
    t.takeWhile (· = chr '.') = [] := by
  cases t with
  | nil =>
      rfl
  | cons c t =>
      exact List.takeWhile_cons_of_neg (by simpa using h)

theorem head?_ne_of_notMem
    {t : Text}
    (h : chr '.' ∉ t) :
    t.head? ≠ some (chr '.') :=
  fun hhead => h (List.mem_of_mem_head? hhead)

/-- One point follows a beginning after which no second one stands. -/
theorem pointsAfter_of_single
    (hsingle : rest.head? ≠ some (chr '.')) :
    pointsAfter outer (outer ++ chr '.' :: rest) = 1 := by
  rw [pointsAfter_append, List.takeWhile_cons_of_pos (by simp), takeWhile_point_eq_nil hsingle]
  rfl

/-- The single point behind a beginning is the one that stands there in longer beginnings. -/
theorem head?_ne_of_append
    {between beyond : Text}
    (hlonger : outer ++ chr '.' :: rest = (outer ++ chr '.' :: between) ++ chr '.' :: beyond)
    (hsingle : rest.head? ≠ some (chr '.')) :
    between.head? ≠ some (chr '.') := by
  rw [List.append_assoc, List.cons_append] at hlonger
  obtain rfl := (List.cons.inj (List.append_cancel_left hlonger)).2
  cases between with
  | nil =>
      simp at hsingle
  | cons c between =>
      simpa using hsingle

/-- A code point and a last point behind a text do not change by an odd number how many points
follow a beginning. -/
theorem pointsAfter_append_mod_two
    {x w : Text}
    (c : CodePoint)
    (hw : chr '.' ∉ w)
    (hp : LiesUnder x p) :
    pointsAfter p (x ++ c :: chr '.' :: w) % 2 = pointsAfter p x % 2 := by
  obtain ⟨rest, rfl⟩ := hp
  rw [List.append_assoc, pointsAfter_append, pointsAfter_append, List.takeWhile_append]
  split
  · next hall =>
    rw [List.length_append, hall]
    by_cases hc : c = chr '.'
    · simp [hc, takeWhile_point_eq_nil (head?_ne_of_notMem hw)]
    · simp [hc]
  · rfl

theorem beginnings_of_notMem
    (h : chr '.' ∉ name) :
    beginnings name = [] := by
  rw [List.eq_nil_iff_forall_not_mem]
  intro p hp
  obtain ⟨rest, heq⟩ := mem_beginnings_iff.mp hp
  exact h (heq ▸ List.mem_append_right _ List.mem_cons_self)

/-- The beginnings of a name that an odd number of points follow, the longest first. -/
def oddBeginnings (name : Text) : List Text :=
  (beginnings name).reverse.filter fun p => !p.isEmpty && pointsAfter p name % 2 == 1

theorem oddBeginnings_of_notMem
    (h : chr '.' ∉ name) :
    oddBeginnings name = [] := by
  rw [oddBeginnings, beginnings_of_notMem h]
  rfl

theorem oddBeginnings_point
    {w : Text}
    (hw : chr '.' ∉ w) :
    oddBeginnings (chr '.' :: w) = [] := by
  simp [oddBeginnings, beginnings, beginnings_of_notMem hw]

/-- Before a last point stands a beginning that it alone follows. The next ones end before the code
point in front of it, whether that is a point or not. -/
theorem oddBeginnings_append
    {x w : Text}
    (c : CodePoint)
    (hw : chr '.' ∉ w) :
    oddBeginnings (x ++ c :: chr '.' :: w) = (x ++ [c]) :: oddBeginnings x := by
  have hlast : pointsAfter (x ++ [c]) (x ++ c :: chr '.' :: w) = 1 := by
    have hsingle : pointsAfter (x ++ [c]) ((x ++ [c]) ++ chr '.' :: w) = 1 :=
      pointsAfter_of_single (head?_ne_of_notMem hw)
    rwa [List.append_assoc, List.singleton_append] at hsingle
  have hmiddle : beginnings (c :: chr '.' :: w) = (if c = chr '.' then [[]] else []) ++ [[c]] := by
    rw [beginnings, beginnings, beginnings_of_notMem hw, if_pos rfl]
    split <;> rfl
  have hrest : (beginnings x).reverse.filter
      (fun p => !p.isEmpty && pointsAfter p (x ++ c :: chr '.' :: w) % 2 == 1) =
        oddBeginnings x := by
    refine List.filter_congr fun p hp => ?_
    rw [pointsAfter_append_mod_two c hw (mem_beginnings_iff.mp (List.mem_reverse.mp hp))]
  rw [oddBeginnings, beginnings_append, hmiddle, List.map_append, List.reverse_append,
    List.reverse_append, List.filter_append, List.filter_append, hrest]
  by_cases hc : c = chr '.'
  · -- Two points follow what stands before both of them.
    have htwo : pointsAfter x (x ++ c :: chr '.' :: w) = 2 := by
      rw [pointsAfter_append, List.takeWhile_cons_of_pos (by simpa using hc),
        List.takeWhile_cons_of_pos (by simp), takeWhile_point_eq_nil (head?_ne_of_notMem hw)]
      rfl
    simp [hc, hc ▸ hlast, hc ▸ htwo]
  · simp [hc, hlast]

/-! ## The search for the next logger -/

/-- The search comes by the beginnings that an odd number of points follow. -/
theorem enclosingWithin_eq
    (name : Text)
    {bound stop : Nat}
    (hbound : stop ≤ bound) :
    enclosingWithin name bound stop = oddBeginnings (name.take stop) := by
  induction bound generalizing stop with
  | zero =>
      obtain rfl := Nat.le_zero.mp hbound
      rfl
  | succ bound ih =>
      rw [enclosingWithin]
      by_cases hpoint : chr '.' ∈ name.take stop
      · obtain ⟨v, w, hsplit, hw⟩ := exists_last_point _ hpoint
        rw [hsplit, lastPoint?_append hw]
        rcases List.eq_nil_or_concat' v with rfl | ⟨x, c, rfl⟩
        · rw [if_pos rfl, List.nil_append, oddBeginnings_point hw]
        · have hfront : x ++ [c] <+: name.take stop := hsplit ▸ List.prefix_append _ _
          have hlong : x ++ [c] <+: name := hfront.trans (List.take_prefix stop name)
          have hshort : x <+: name := (List.prefix_append x [c]).trans hlong
          have hstop : (x ++ [c]).length ≤ stop :=
            hfront.length_le.trans (List.length_take_le stop name)
          have hlength : (x ++ [c]).length - 1 = x.length := by
            rw [List.length_append, List.length_singleton, Nat.add_sub_cancel]
          rw [if_neg (by simp)]
          dsimp only
          rw [hlength, ih (by omega), ← List.prefix_iff_eq_take.mp hlong,
            ← List.prefix_iff_eq_take.mp hshort, List.append_assoc, List.singleton_append,
            oddBeginnings_append c hw]
      · rw [lastPoint?_of_notMem hpoint, oddBeginnings_of_notMem hpoint]

theorem enclosing_eq
    (name : Text) :
    enclosing name = oddBeginnings name := by
  rw [enclosing, enclosingWithin_eq name (Nat.le_refl _), List.take_length]

/-! ## Who gets a record -/

/-- A logger takes records over from another one that its name is over. The root logger does so
always; others do when an odd number of points stand between the names and, if the name is a
beginning of the root logger's, when they were made before the other one. -/
def TakesOver
    (made : List Text)
    (last outer : Text) : Prop :=
  outer = rootName ∨
    pointsAfter outer last % 2 = 1 ∧ (outer <+: rootName → made.idxOf outer < made.idxOf last)

instance decidableTakesOver
    (made : List Text)
    (last outer : Text) :
    Decidable (TakesOver made last outer) :=
  inferInstanceAs (Decidable (_ ∨ _ ∧ _))

/-- The names among some over a name that get its records, in one pass. Each that was made gets them
if it takes them over from the last one that got them. -/
def passedOn (made : List Text) : Text → List Text → List Text
  | _, [] => []
  | last, outer :: rest =>
    if outer ∈ made ∧ TakesOver made last outer then outer :: passedOn made outer rest
    else passedOn made last rest

/-- The names of the loggers that get a record for a name, when loggers were made in an order. -/
def receivers
    (made : List Text)
    (name : Text) : List Text :=
  (if name ∈ made then [name] else []) ++ passedOn made name (ancestors name)

/-- The names of loggers in the order in which they were made. -/
def names (ls : Loggers) : List Text :=
  ls.map Logger.name

variable
  {ls : Loggers}
  {made before after : List Text}

theorem find?_isSome_iff :
    (ls.find? name).isSome = true ↔ name ∈ ls.names := by
  simp [find?, names]

theorem position_eq
    (ls : Loggers)
    (name : Text) :
    ls.position name = ls.names.idxOf name := by
  rw [position, names, List.idxOf, List.findIdx_map]
  rfl

theorem handlersOf_of_notMem
    (h : name ∉ ls.names) :
    ls.handlersOf name = [] := by
  rw [handlersOf, Option.not_isSome_iff_eq_none.mp (mt find?_isSome_iff.mp h)]

theorem takesIn_iff :
    ls.takesIn outer name = true ↔
      outer ∈ ls.names ∧
        (outer <+: rootName → ls.names.idxOf outer < ls.names.idxOf name) := by
  rw [takesIn, Bool.and_eq_true, find?_isSome_iff, position_eq, position_eq, Text.beginsWith,
    Bool.or_eq_true, Bool.not_eq_true', ← Bool.not_eq_true, List.isPrefixOf_iff_prefix,
    decide_eq_true_iff, imp_iff_not_or]

/-- Names that take nothing over are passed by. -/
theorem passedOn_append_of_not
    (h : ∀ outer ∈ before, ¬ (outer ∈ made ∧ TakesOver made last outer)) :
    passedOn made last (before ++ after) = passedOn made last after := by
  induction before with
  | nil =>
      rfl
  | cons outer before ih =>
      rw [List.cons_append, passedOn, if_neg (h outer List.mem_cons_self)]
      exact ih fun p hp => h p (List.mem_cons_of_mem _ hp)

theorem passedOn_rootName
    (made : List Text)
    (last : Text) :
    passedOn made last [rootName] = if rootName ∈ made then [rootName] else [] := by
  simp [passedOn, TakesOver]

/-- The search for the next logger over a name ends at a beginning unless it has ended before. -/
def EndsAt
    (ls : Loggers)
    (name outer : Text) : Prop :=
  outer ≠ [] ∧ pointsAfter outer name % 2 = 1 ∧ outer ∈ ls.names ∧
    (outer <+: rootName → ls.names.idxOf outer < ls.names.idxOf name)

instance decidableEndsAt
    (ls : Loggers)
    (name outer : Text) :
    Decidable (ls.EndsAt name outer) :=
  inferInstanceAs (Decidable (_ ∧ _ ∧ _ ∧ _))

theorem find?_enclosing
    (ls : Loggers)
    (name : Text) :
    (enclosing name).find? (ls.takesIn · name) =
      (beginnings name).reverse.find? (ls.EndsAt name ·) := by
  rw [enclosing_eq, oddBeginnings, List.find?_filter]
  refine congrArg (List.find? · _) (funext fun outer => decide_eq_decide.mpr ?_)
  simp only [takesIn_iff, EndsAt, Bool.and_eq_true, Bool.not_eq_true', List.isEmpty_eq_false_iff,
    beq_iff_eq, and_assoc]

/-- A logger takes over from a name when the search can end at it; the root logger always does. -/
theorem takesOver_iff_endsAt
    (hempty : outer ≠ [])
    (hroot : outer ≠ rootName) :
    outer ∈ ls.names ∧ TakesOver ls.names name outer ↔ ls.EndsAt name outer := by
  rw [TakesOver, or_iff_right hroot, EndsAt]
  tauto

/-- Where the search cannot end, nothing is taken over. -/
theorem passedOn_filter_append
    (hbefore : ∀ outer ∈ before, ¬ ls.EndsAt name outer) :
    passedOn ls.names name
        (before.filter (fun outer => outer ≠ [] ∧ outer ≠ rootName) ++ after) =
      passedOn ls.names name after := by
  refine passedOn_append_of_not fun outer hmem => ?_
  obtain ⟨hmem, hkept⟩ := List.mem_filter.mp hmem
  obtain ⟨hempty, hroot⟩ := of_decide_eq_true hkept
  rw [takesOver_iff_endsAt hempty hroot]
  exact hbefore outer hmem

/-- When the search finds no logger, only the root logger is left. -/
theorem passedOn_ancestors_of_none
    (hroot : name ≠ rootName)
    (h : (enclosing name).find? (ls.takesIn · name) = none) :
    passedOn ls.names name (ancestors name) = passedOn ls.names name [rootName] := by
  have hnone : ∀ outer ∈ (beginnings name).reverse, ¬ ls.EndsAt name outer := by
    simpa [find?_enclosing] using h
  rw [ancestors, if_neg hroot, passedOn_filter_append hnone]

/-- The logger that the search finds is the next one in the pass. -/
theorem passedOn_ancestors_of_some
    (hroot : name ≠ rootName)
    (h : (enclosing name).find? (ls.takesIn · name) = some outer) :
    ls.EndsAt name outer ∧ outer.length < name.length ∧
      passedOn ls.names name (ancestors name) =
        outer :: passedOn ls.names outer (ancestors outer) := by
  rw [find?_enclosing, List.find?_eq_some_iff_append] at h
  obtain ⟨hends, before, after, hsplit, hbefore⟩ := h
  have hends : ls.EndsAt name outer := of_decide_eq_true hends
  have hbefore : ∀ p ∈ before, ¬ ls.EndsAt name p := by
    simpa using hbefore
  have hback : beginnings name = after.reverse ++ outer :: before.reverse := by
    rw [← List.reverse_inj, hsplit]
    simp
  have hlength : outer.length < name.length := by
    have hmem : outer ∈ beginnings name := hback ▸ List.mem_append_right _ List.mem_cons_self
    obtain ⟨rest, rfl⟩ := mem_beginnings_iff.mp hmem
    simp
  have hafter : after = (beginnings outer).reverse := by
    rw [← beginnings_of_append_cons hback, List.reverse_reverse]
  refine ⟨hends, hlength, ?_⟩
  rw [ancestors, if_neg hroot, hsplit, List.filter_append, List.append_assoc,
    passedOn_filter_append hbefore, hafter]
  by_cases houter : outer = rootName
  · -- Nothing is over the root logger's name, which stands last in any case.
    subst houter
    have hnone : beginnings rootName = [] := by decide
    simp [hnone, ancestors, passedOn_rootName, passedOn, hends.2.2.1]
  · rw [List.filter_cons_of_pos (by simp [hends.1, houter]), List.cons_append, passedOn,
      if_pos ((takesOver_iff_endsAt hends.1 houter).mpr hends), ancestors, if_neg houter]

/-- The loggers on the way up from a name are those of one pass over the names over it, but for
names of which there is no logger. -/
theorem filter_chainWithin
    (ls : Loggers)
    {bound : Nat}
    (hname : name ≠ [])
    (hbound : name.length ≤ bound) :
    (ls.chainWithin bound name).filter (· ∈ ls.names) = receivers ls.names name := by
  have hcons : ∀ (own : Text) (up : List Text), (own :: up).filter (· ∈ ls.names) =
      (if own ∈ ls.names then [own] else []) ++ up.filter (· ∈ ls.names) := by
    intro own up
    by_cases hmade : own ∈ ls.names <;> simp [hmade]
  induction bound generalizing name with
  | zero =>
      exact absurd (List.length_eq_zero_iff.mp (Nat.le_zero.mp hbound)) hname
  | succ bound ih =>
      rw [chainWithin, receivers]
      split
      · next hroot =>
        rw [hroot, hcons, ancestors, if_pos rfl]
        rfl
      · next hroot =>
        split
        · next outer hfind =>
          obtain ⟨⟨hempty, -, hmade, -⟩, hlength, hpass⟩ := passedOn_ancestors_of_some hroot hfind
          rw [hcons, ih hempty (by omega), receivers, if_pos hmade, hpass]
          rfl
        · next hfind =>
          rw [hcons, hcons, passedOn_ancestors_of_none hroot hfind, passedOn_rootName]
          simp

theorem filter_chain
    (ls : Loggers)
    (hname : name ≠ []) :
    (ls.chain name).filter (· ∈ ls.names) = receivers ls.names name :=
  ls.filter_chainWithin hname (Nat.le_refl _)

/-- **Who gets a record.** The handlers that get a record are those of its receivers, in the order
in which the record goes up. -/
theorem handlersFor_eq
    (ls : Loggers)
    (hname : name ≠ []) :
    ls.handlersFor name = (receivers ls.names name).flatMap ls.handlersOf := by
  rw [handlersFor, ← ls.filter_chain hname]
  induction ls.chain name with
  | nil =>
      rfl
  | cons n up ih =>
      rw [List.flatMap_cons, ih]
      by_cases hmade : n ∈ ls.names
      · rw [List.filter_cons_of_pos (by simpa using hmade), List.flatMap_cons]
      · rw [List.filter_cons_of_neg (by simpa using hmade), handlersOf_of_notMem hmade,
          List.nil_append]

/-! ## What is passed over -/

theorem passedOn_sublist
    (made : List Text)
    (last : Text)
    (above : List Text) :
    (passedOn made last above).Sublist above := by
  induction above generalizing last with
  | nil =>
      exact List.Sublist.refl _
  | cons outer above ih =>
      rw [passedOn]
      split
      · exact (ih outer).cons_cons outer
      · exact (ih last).cons outer

theorem mem_of_mem_passedOn
    {above : List Text}
    (h : outer ∈ passedOn made last above) :
    outer ∈ made := by
  induction above generalizing last with
  | nil =>
      cases h
  | cons p above ih =>
      rw [passedOn] at h
      split at h
      · next htakes =>
        rcases List.mem_cons.mp h with rfl | h
        · exact htakes.1
        · exact ih h
      · exact ih h

theorem receivers_sublist
    (made : List Text)
    (name : Text) :
    (receivers made name).Sublist (name :: ancestors name) := by
  have hpassed := passedOn_sublist made name (ancestors name)
  rw [receivers, ← List.singleton_append (l := ancestors name)]
  refine List.Sublist.append ?_ hpassed
  split
  · exact List.Sublist.refl _
  · exact List.nil_sublist _

theorem nodup_receivers
    (made : List Text)
    (name : Text) :
    (receivers made name).Nodup :=
  (receivers_sublist made name).nodup (nodup_cons_ancestors name)

/-- Receivers are loggers: the one of the name, the root logger, or one that the name lies under. -/
theorem mem_receivers
    (h : outer ∈ receivers made name) :
    outer ∈ made ∧ (outer = name ∨ outer = rootName ∨ LiesUnder name outer) := by
  constructor
  · rcases List.mem_append.mp h with h | h
    · split at h
      · next hmade =>
        rwa [List.mem_singleton.mp h]
      · cases h
    · exact mem_of_mem_passedOn h
  · rcases List.mem_cons.mp ((receivers_sublist made name).subset h) with heq | hmem
    · exact .inl heq
    · obtain ⟨-, heq | ⟨-, hunder⟩⟩ := mem_ancestors_iff.mp hmem
      · exact .inr (.inl heq)
      · exact .inr (.inr hunder)

/-- A logger gets the records if it takes them over from whichever logger it may be that got them
last. -/
theorem mem_passedOn_of_takesOver
    (hmade : outer ∈ made)
    (hlast : TakesOver made last outer)
    (hbefore : ∀ p ∈ before, p ∈ made → TakesOver made p outer) :
    outer ∈ passedOn made last (before ++ outer :: after) := by
  induction before generalizing last with
  | nil =>
      rw [List.nil_append, passedOn, if_pos ⟨hmade, hlast⟩]
      exact List.mem_cons_self
  | cons p before ih =>
      have hrest : ∀ q ∈ before, q ∈ made → TakesOver made q outer :=
        fun q hq => hbefore q (List.mem_cons_of_mem _ hq)
      rw [List.cons_append, passedOn]
      split
      · next htakes =>
        exact List.mem_cons_of_mem _ (ih (hbefore p List.mem_cons_self htakes.1) hrest)
      · exact ih hlast hrest

theorem self_mem_receivers
    (hmade : name ∈ made) :
    name ∈ receivers made name := by
  rw [receivers, if_pos hmade]
  exact List.mem_append_left _ (List.mem_singleton_self name)

/-- The root logger gets all records. -/
theorem rootName_mem_receivers
    (name : Text)
    (hmade : rootName ∈ made) :
    rootName ∈ receivers made name := by
  by_cases hroot : name = rootName
  · subst hroot
    exact self_mem_receivers hmade
  · rw [receivers, ancestors, if_neg hroot]
    exact List.mem_append_right _
      (mem_passedOn_of_takesOver hmade (.inl rfl) fun p _ _ => .inl rfl)

theorem takesOver_of_single
    (hmade : outer ∈ made)
    (hsingle : rest.head? ≠ some (chr '.'))
    (holder : outer <+: rootName → outer ++ chr '.' :: rest ∈ made →
      made.idxOf outer < made.idxOf (outer ++ chr '.' :: rest)) :
    TakesOver made (outer ++ chr '.' :: rest) outer := by
  refine .inr ⟨by rw [pointsAfter_of_single hsingle], fun hroot => ?_⟩
  by_cases hlast : outer ++ chr '.' :: rest ∈ made
  · exact holder hroot hlast
  · rw [List.idxOf_eq_length hlast]
    exact List.idxOf_lt_length_of_mem hmade

/-- A logger gets the records of a name that goes on after its own with a single point, if it does
not begin the root logger's name or was made before all loggers between the two. -/
theorem mem_receivers_of_single
    (hempty : outer ≠ [])
    (hmade : outer ∈ made)
    (hsingle : rest.head? ≠ some (chr '.'))
    (hname : name = outer ++ chr '.' :: rest)
    (holder : outer <+: rootName → ∀ last ∈ made, last = name ∨ LiesUnder name last →
      LiesUnder last outer → made.idxOf outer < made.idxOf last) :
    outer ∈ receivers made name := by
  by_cases hroot : outer = rootName
  · subst hroot
    exact rootName_mem_receivers name hmade
  have hnotRoot : name ≠ rootName := by
    rintro rfl
    have hpoint : chr '.' ∈ rootName := hname ▸ List.mem_append_right _ List.mem_cons_self
    exact absurd hpoint (by decide)
  have hmem : outer ∈ (beginnings name).reverse :=
    List.mem_reverse.mpr (mem_beginnings_iff.mpr ⟨rest, hname⟩)
  obtain ⟨before, after, hsplit⟩ := List.append_of_mem hmem
  rw [receivers, ancestors, if_neg hnotRoot, hsplit, List.filter_append,
    List.filter_cons_of_pos (by simp [hempty, hroot]), List.append_assoc, List.cons_append]
  refine List.mem_append_right _ (mem_passedOn_of_takesOver hmade ?_ ?_)
  · subst hname
    exact takesOver_of_single hmade hsingle fun hbegins hlast =>
      holder hbegins _ hlast (.inl rfl) ⟨rest, rfl⟩
  · intro last hlast _
    obtain ⟨hlast, -⟩ := List.mem_filter.mp hlast
    have hover : LiesUnder last outer := liesUnder_of_before hsplit hlast
    have hunder : LiesUnder name last := by
      have hlast : last ∈ (beginnings name).reverse := hsplit ▸ List.mem_append_left _ hlast
      exact mem_beginnings_iff.mp (List.mem_reverse.mp hlast)
    have hbetween := fun hbegins hlast => holder hbegins last hlast (.inr hunder) hover
    obtain ⟨between, rfl⟩ := hover
    obtain ⟨beyond, hbeyond⟩ := hunder
    exact takesOver_of_single hmade (head?_ne_of_append (hname ▸ hbeyond) hsingle) hbetween

/-- Nothing keeps the records of a name from the loggers over it: no two points stand side by side
in the name, and a logger whose name is a beginning of the root logger's was made before all loggers
between the two. -/
structure Unobstructed
    (made : List Text)
    (name : Text) : Prop where
  single : ∀ outer rest, name = outer ++ chr '.' :: rest → rest.head? ≠ some (chr '.')
  older : ∀ outer ∈ made, outer <+: rootName → ∀ last ∈ made, last = name ∨ LiesUnder name last →
    LiesUnder last outer → made.idxOf outer < made.idxOf last

/-- With nothing in the way all loggers over a name get its records. -/
theorem mem_receivers_iff
    (h : Unobstructed made name)
    (hmade : ∀ outer ∈ made, outer ≠ []) :
    outer ∈ receivers made name ↔
      outer ∈ made ∧ (outer = name ∨ outer = rootName ∨ LiesUnder name outer) := by
  refine ⟨mem_receivers, ?_⟩
  rintro ⟨houter, rfl | rfl | ⟨rest, hname⟩⟩
  · exact self_mem_receivers houter
  · exact rootName_mem_receivers name houter
  · exact mem_receivers_of_single (hmade outer houter) houter (h.single outer rest hname) hname
      (h.older outer houter)

end Loggers

end Keybox
