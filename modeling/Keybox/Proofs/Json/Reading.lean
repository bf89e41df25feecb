import Keybox.Proofs.Json.Grammar

/-!
# The reader reads the grammar

Each reader is compared with the relation of the grammar that is meant for it: it takes what the
relation describes, if that ends there, and nothing else. For what stands in brackets this is said
once, of any reader of things one after another, and used for items and for members.

**Results.** A document is read as a value exactly when the grammar says that it is a document of
that value. An object has in its members the values that were given last.
-/

namespace Keybox

namespace Json

/-! ## Readers and relations -/

section Readers

variable
  {α : Type}
  {P : Text → α → Prop}
  {one : Cursor → Reading α}

/-- A reader takes what a relation describes, if it ends there, and nothing else. -/
structure ReadsBy
    (one : Cursor → Reading α)
    (P : Text → α → Prop) : Prop where
  takes : ∀ {u a rest}, P u a → Ends rest → ∀ offset,
    ∃ stop, one ⟨offset, u ++ rest⟩ = .ok (a, ⟨stop, rest⟩)
  only : ∀ {c a stop}, one c = .ok (a, stop) → ∃ u, c.rest = u ++ stop.rest ∧ P u a

/-- What a relation describes begins with neither a blank nor a closing bracket nor a byte order
mark. -/
def Opens
    (P : Text → α → Prop) : Prop :=
  ∀ {u a}, P u a →
    ∃ c rest, u = c :: rest ∧ isBlank c = false ∧ c ≠ chr ']' ∧ c ≠ chr '\x7d' ∧ c ≠ 0xFEFF

/-- One round of reading things one after another: a thing, and then the closing bracket, or a comma
and the others. -/
inductive Round
    (one : Cursor → Reading α)
    (others : Cursor → Reading (List α))
    (close : CodePoint)
    (c : Cursor) : List α → Cursor → Prop where
  | last
      {a : α}
      {next : Cursor}
      {offset : Nat}
      {rest : Text} :
      one c = .ok (a, next) → skipBlanks next.offset next.rest = ⟨offset, close :: rest⟩ →
        Round one others close c [a] ⟨offset + 1, rest⟩
  | more
      {a : α}
      {next : Cursor}
      {offset : Nat}
      {rest : Text}
      {as : List α}
      {stop : Cursor} :
      one c = .ok (a, next) → skipBlanks next.offset next.rest = ⟨offset, chr ',' :: rest⟩ →
        others (skipBlanks (offset + 1) rest) = .ok (as, stop) →
          Round one others close c (a :: as) stop

/-- A reader of things one after another, with a bound on their number. -/
structure Repeats
    (one : Cursor → Reading α)
    (close : CodePoint)
    (loop : Nat → Cursor → Reading (List α)) : Prop where
  zero : ∀ {c as stop}, loop 0 c ≠ .ok (as, stop)
  succ : ∀ {bound c as stop},
    loop (bound + 1) c = .ok (as, stop) ↔ Round one (loop bound) close c as stop

/-- After its blanks a list begins with its first thing, and no thing is empty. -/
theorem Listed.exists_start
    (hP : Opens P)
    {t : Text}
    {as : List α}
    (h : Listed P t as) :
    ∃ s c rest, t = s ++ c :: rest ∧ IsBlanks s ∧ isBlank c = false ∧ c ≠ chr ']' ∧
      c ≠ chr '\x7d' ∧ as.length ≤ rest.length + 1 := by
  induction h with
  | @one s u s' a hs hu hs' =>
      obtain ⟨c, rest, rfl, hblank, harray, hobject, -⟩ := hP hu
      exact ⟨s, c, rest ++ s', rfl, hs, hblank, harray, hobject, by simp⟩
  | @cons s u s' t a as hs hu hs' _ ih =>
      obtain ⟨c, rest, rfl, hblank, harray, hobject, -⟩ := hP hu
      obtain ⟨s₂, d, rest₂, rfl, -, -, -, -, hlength⟩ := ih
      refine ⟨s, c, rest ++ (s' ++ chr ',' :: (s₂ ++ d :: rest₂)), by simp, hs, hblank, harray,
        hobject, ?_⟩
      simp only [List.length_append, List.length_cons]
      omega

/-- What is listed is read up to behind the closing bracket. -/
theorem Repeats.takes
    {close : CodePoint}
    {loop : Nat → Cursor → Reading (List α)}
    (h : Repeats one close loop)
    (hone : ReadsBy one P)
    (hP : Opens P)
    (hclose : close ∈ [chr ',', chr ']', chr '\x7d'])
    (hblank : isBlank close = false)
    {t : Text}
    {as : List α}
    (ht : Listed P t as)
    {bound : Nat}
    (hbound : as.length ≤ bound)
    (offset : Nat)
    (tail : Text) :
    ∃ stop, loop bound (skipBlanks offset (t ++ close :: tail)) = .ok (as, ⟨stop, tail⟩) := by
  have hhead : ∀ {u : Text} {a : α} (rest : Text), P u a →
      ∀ c, (u ++ rest).head? = some c → isBlank c = false := by
    intro u a rest hu c hc
    obtain ⟨d, more, rfl, hd, -⟩ := hP hu
    cases hc
    exact hd
  have hnoBlank : ∀ {c : CodePoint} (rest : Text), isBlank c = false →
      ∀ d, (c :: rest).head? = some d → isBlank d = false := by
    rintro c rest hc _ ⟨⟩
    exact hc
  induction ht generalizing bound offset with
  | @one s u s' a hs hu hs' =>
      obtain ⟨bound, rfl⟩ := Nat.exists_eq_add_of_le' hbound
      obtain ⟨next, hnext⟩ := hone.takes hu (ends_append hs' hclose tail) (offset + s.length)
      refine ⟨next + s'.length + 1, ?_⟩
      rw [List.append_assoc, List.append_assoc, skipBlanks_append hs (hhead _ hu)]
      exact h.succ.mpr (.last hnext (skipBlanks_append hs' (hnoBlank tail hblank) next))
  | @cons s u s' t a as hs hu hs' _ ih =>
      obtain ⟨bound, rfl⟩ := Nat.exists_eq_add_of_le' (Nat.le_of_add_left_le hbound)
      obtain ⟨next, hnext⟩ := hone.takes hu
        (ends_append hs' (c := chr ',') (by simp) (t ++ close :: tail)) (offset + s.length)
      obtain ⟨stop, hstop⟩ := ih (Nat.le_of_succ_le_succ hbound) (next + s'.length + 1)
      refine ⟨stop, ?_⟩
      rw [List.append_assoc, List.append_assoc, List.append_assoc, List.cons_append,
        skipBlanks_append hs (hhead _ hu)]
      exact h.succ.mpr
        (.more hnext (skipBlanks_append hs' (hnoBlank _ (by decide)) next) hstop)

/-- What is read one after another is listed up to the closing bracket. -/
theorem Repeats.only
    {close : CodePoint}
    {loop : Nat → Cursor → Reading (List α)}
    (h : Repeats one close loop)
    (hone : ReadsBy one P)
    {bound : Nat}
    {c stop : Cursor}
    {as : List α}
    (hloop : loop bound c = .ok (as, stop)) :
    ∃ t, c.rest = t ++ close :: stop.rest ∧ Listed P t as := by
  induction bound generalizing c as with
  | zero =>
      exact absurd hloop h.zero
  | succ bound ih =>
      cases h.succ.mp hloop with
      | @last a next offset rest hnext hskip =>
          obtain ⟨u, hc, hu⟩ := hone.only hnext
          obtain ⟨s', hs', hblanks⟩ := exists_skipBlanks next.offset next.rest
          rw [hskip] at hs'
          refine ⟨[] ++ (u ++ s'), ?_, .one (List.forall_mem_nil _) hu hblanks⟩
          rw [hc, hs', List.nil_append, List.append_assoc]
      | @more a next offset rest as _ hnext hskip hothers =>
          obtain ⟨u, hc, hu⟩ := hone.only hnext
          obtain ⟨s', hs', hblanks'⟩ := exists_skipBlanks next.offset next.rest
          obtain ⟨s, hs, hblanks⟩ := exists_skipBlanks (offset + 1) rest
          obtain ⟨t, ht, hlisted⟩ := ih hothers
          rw [hskip] at hs'
          refine ⟨[] ++ (u ++ (s' ++ chr ',' :: (s ++ t))), ?_,
            .cons (List.forall_mem_nil _) hu hblanks' (hlisted.blanks hblanks)⟩
          rw [hc, hs', hs, ht]
          simp

end Readers

/-! ## Strings and what has no brackets -/

theorem IsQuoted.readText_eq
    {u t : Text}
    (h : IsQuoted u t)
    (opening offset : Nat)
    (tail : Text) :
    ∃ rest stop, u ++ tail = chr '"' :: rest ∧
      readText opening offset rest = .ok (t, ⟨stop, tail⟩) := by
  obtain ⟨body, rfl, hbody⟩ := h
  obtain ⟨stop, hstop⟩ := hbody.readText_eq opening offset tail
  exact ⟨_, stop, by simp, hstop⟩

theorem isQuoted_of_readText
    {opening offset : Nat}
    {rest t : Text}
    {stop : Cursor}
    (h : readText opening offset rest = .ok (t, stop)) :
    ∃ u, chr '"' :: rest = u ++ stop.rest ∧ IsQuoted u t := by
  obtain ⟨body, rfl, hbody⟩ := spells_of_readText h
  exact ⟨_, by simp, body, rfl, hbody⟩

/-- No word is the beginning of another. -/
theorem find?_words
    {w : Text}
    {v : Json}
    (hw : (w, v) ∈ words)
    (rest : Text) :
    (words.find? fun word => Text.beginsWith word.1 (w ++ rest)) = some (w, v) := by
  simp only [words, List.mem_cons, Prod.mk.injEq, List.not_mem_nil, or_false] at hw
  rcases hw with ⟨rfl, rfl⟩ | ⟨rfl, rfl⟩ | ⟨rfl, rfl⟩ | ⟨rfl, rfl⟩ | ⟨rfl, rfl⟩ | ⟨rfl, rfl⟩ <;>
    rfl

/-- No word has a digit, and a number has one behind its sign. -/
theorem find?_words_of_isNumber
    {t : Text}
    {v : Json}
    (h : IsNumber t v)
    (rest : Text) :
    (words.find? fun word => Text.beginsWith word.1 (t ++ rest)) = none := by
  have hwords : ∀ word ∈ words, 2 ≤ word.1.length ∧
      word.1.all (fun c => !c.isDigit) = true := by decide
  rw [List.find?_eq_none]
  intro word hword hbegins
  rw [Text.beginsWith, List.isPrefixOf_iff_prefix] at hbegins
  obtain ⟨hlength, hdigits⟩ := hwords word hword
  obtain ⟨c, d, letters, hletters⟩ : ∃ c d letters, word.1 = c :: d :: letters := by
    rcases hw : word.1 with _ | ⟨c, _ | ⟨d, letters⟩⟩
    · simp [hw] at hlength
    · simp [hw] at hlength
    · exact ⟨c, d, letters, rfl⟩
  rw [hletters] at hbegins hdigits
  simp only [List.all_cons, Bool.and_eq_true, Bool.not_eq_true'] at hdigits
  cases h with
  | unsigned h =>
      obtain ⟨e, more, rfl, he⟩ := h.exists_digit
      obtain ⟨rfl, -⟩ := List.cons_prefix_cons.mp hbegins
      cases he.symm.trans hdigits.1
  | negative h =>
      obtain ⟨e, more, rfl, he⟩ := h.exists_digit
      obtain ⟨-, hbegins⟩ := List.cons_prefix_cons.mp hbegins
      obtain ⟨rfl, -⟩ := List.cons_prefix_cons.mp hbegins
      cases he.symm.trans hdigits.2.1

theorem readBare_word
    {w : Text}
    {v : Json}
    (hw : (w, v) ∈ words)
    (offset : Nat)
    (rest : Text) :
    readBare ⟨offset, w ++ rest⟩ = .ok (v, ⟨offset + w.length, rest⟩) := by
  simp only [readBare, find?_words hw, List.drop_left]

theorem readBare_number
    {u rest : Text}
    {v : Json}
    (hu : IsNumber u v)
    (hrest : Ends rest)
    (offset : Nat) :
    ∃ stop, readBare ⟨offset, u ++ rest⟩ = .ok (v, ⟨stop, rest⟩) := by
  simp only [readBare, find?_words_of_isNumber hu]
  exact hu.readNumber_eq hrest offset

theorem word_or_number_of_readBare
    {c stop : Cursor}
    {v : Json}
    (h : readBare c = .ok (v, stop)) :
    ∃ u, c.rest = u ++ stop.rest ∧ ((u, v) ∈ words ∨ IsNumber u v) := by
  rw [readBare] at h
  split at h
  · next word v' hfind =>
    cases h
    have hbegins := List.find?_some hfind
    rw [Text.beginsWith, List.isPrefixOf_iff_prefix] at hbegins
    obtain ⟨rest, hrest⟩ := hbegins
    refine ⟨word, ?_, .inl (List.mem_of_find?_eq_some hfind)⟩
    rw [← hrest, List.drop_left]
  · obtain ⟨u, hu, hnumber⟩ := isNumber_of_readNumber h
    exact ⟨u, hu, .inr hnumber⟩

/-! ## Members -/

/-- Reads the name and the value of a member. -/
def readMember (item : Cursor → Reading Json) (c : Cursor) : Reading (Text × Json) :=
  match readName c with
  | .error f => .error f
  | .ok (name, c) => (item c).map fun p => ((name, p.1), p.2)

theorem readName_append
    {q s s' tail name : Text}
    (hq : IsQuoted q name)
    (hs : IsBlanks s)
    (hs' : IsBlanks s')
    (htail : ∀ c, tail.head? = some c → isBlank c = false)
    (offset : Nat) :
    ∃ stop, readName ⟨offset, q ++ (s ++ chr ':' :: (s' ++ tail))⟩ =
      .ok (name, ⟨stop, tail⟩) := by
  obtain ⟨rest, stop, hrest, hread⟩ :=
    hq.readText_eq offset (offset + 1) (s ++ chr ':' :: (s' ++ tail))
  have hcolon : ∀ c, (chr ':' :: (s' ++ tail)).head? = some c → isBlank c = false := by
    rintro _ ⟨⟩
    decide
  refine ⟨stop + s.length + 1 + s'.length, ?_⟩
  rw [hrest, readName]
  simp only [if_true, hread, skipBlanks_append hs hcolon, skipBlanks_append hs' htail]

theorem exists_of_readName
    {c stop : Cursor}
    {name : Text}
    (h : readName c = .ok (name, stop)) :
    ∃ q s s', c.rest = q ++ (s ++ chr ':' :: (s' ++ stop.rest)) ∧ IsQuoted q name ∧
      IsBlanks s ∧ IsBlanks s' := by
  rw [readName] at h
  split at h
  · cases h
  · next q rest hc =>
    split_ifs at h with hquote
    split at h
    · cases h
    · next name' c' htext =>
      dsimp only at h
      split at h
      · cases h
      · next d more hskip =>
        split_ifs at h with hcolon
        cases h
        obtain ⟨u, hu, hquoted⟩ := isQuoted_of_readText htext
        obtain ⟨s, hs, hblanks⟩ := exists_skipBlanks c'.offset c'.rest
        obtain ⟨s', hs', hblanks'⟩ :=
          exists_skipBlanks ((skipBlanks c'.offset c'.rest).offset + 1) more
        refine ⟨u, s, s', ?_, hquoted, hblanks, hblanks'⟩
        rw [hc, hquote, hu, ← hs', ← hcolon, ← hskip, ← hs]

section Brackets

variable
  {item : Cursor → Reading Json}
  {P : Text → Json → Prop}

theorem opens_isMember :
    Opens (IsMember P) := by
  rintro _ m ⟨_, s, s', t, rfl, ⟨body, rfl, -⟩, -⟩
  exact ⟨chr '"', _, rfl, by decide⟩

theorem readsBy_readMember
    (hitem : ReadsBy item P)
    (hP : Opens P) :
    ReadsBy (readMember item) (IsMember P) where
  takes := by
    rintro u ⟨name, v⟩ rest ⟨q, s, s', t, rfl, hq, hs, hs', ht⟩ hrest offset
    have hhead : ∀ c, (t ++ rest).head? = some c → isBlank c = false := by
      obtain ⟨c, more, rfl, hc, -⟩ := hP ht
      rintro _ ⟨⟩
      exact hc
    obtain ⟨next, hname⟩ := readName_append hq hs hs' hhead offset
    obtain ⟨stop, hvalue⟩ := hitem.takes ht hrest next
    refine ⟨stop, ?_⟩
    simp only [List.append_assoc, List.cons_append, readMember, hname, hvalue]
    rfl
  only := by
    rintro c ⟨name, v⟩ stop h
    rw [readMember] at h
    split at h
    · cases h
    · next name' next hname =>
      cases hvalue : item next with
      | error fault =>
          rw [hvalue] at h
          cases h
      | ok p =>
          rw [hvalue] at h
          cases h
          obtain ⟨q, s, s', hc, hq, hs, hs'⟩ := exists_of_readName hname
          obtain ⟨t, hnext, ht⟩ := hitem.only hvalue
          refine ⟨_, ?_, q, s, s', t, rfl, hq, hs, hs', ht⟩
          rw [hc, hnext]
          simp

/-! ## Brackets -/

theorem repeats_readItems :
    Repeats item (chr ']') (readItems item) where
  zero := by
    rintro c as stop ⟨⟩
  succ := by
    intro bound c as stop
    constructor
    · intro h
      rw [readItems] at h
      split at h
      · cases h
      · next v next hitem =>
        dsimp only at h
        split at h
        · cases h
        · next d rest hrest =>
          have hskip : skipBlanks next.offset next.rest =
              ⟨(skipBlanks next.offset next.rest).offset, d :: rest⟩ := by rw [← hrest]
          split_ifs at h with hclose hcomma
          · cases h
            rw [hclose] at hskip
            exact .last hitem hskip
          · obtain ⟨vs, rfl, hothers⟩ := map_fst_eq_ok_iff.mp h
            rw [hcomma] at hskip
            exact .more hitem hskip hothers
    · intro h
      cases h with
      | last hitem hskip =>
          simp only [readItems, hitem, hskip, if_true]
      | more hitem hskip hothers =>
          have hcomma : chr ',' ≠ chr ']' := by decide
          simp only [readItems, hitem, hskip, hcomma, if_true, if_false]
          exact map_fst_eq_ok_iff.mpr ⟨_, rfl, hothers⟩

theorem readMember_eq_ok_iff
    {c stop : Cursor}
    {m : Text × Json} :
    readMember item c = .ok (m, stop) ↔
      ∃ next, readName c = .ok (m.1, next) ∧ item next = .ok (m.2, stop) := by
  rw [readMember]
  cases hname : readName c with
  | error fault =>
      simp
  | ok p =>
      obtain ⟨name, next⟩ := p
      dsimp only
      rw [map_fst_eq_ok_iff]
      constructor
      · rintro ⟨v, rfl, hvalue⟩
        exact ⟨next, rfl, hvalue⟩
      · rintro ⟨_, ⟨⟩, hvalue⟩
        exact ⟨m.2, rfl, hvalue⟩

theorem repeats_readMembers :
    Repeats (readMember item) (chr '\x7d') (readMembers item) where
  zero := by
    rintro c as stop ⟨⟩
  succ := by
    intro bound c as stop
    constructor
    · intro h
      rw [readMembers] at h
      split at h
      · cases h
      · next name mid hname =>
        split at h
        · cases h
        · next v next hitem =>
          have hmember : readMember item c = .ok ((name, v), next) :=
            readMember_eq_ok_iff.mpr ⟨mid, hname, hitem⟩
          dsimp only at h
          split at h
          · cases h
          · next d rest hrest =>
            have hskip : skipBlanks next.offset next.rest =
                ⟨(skipBlanks next.offset next.rest).offset, d :: rest⟩ := by rw [← hrest]
            split_ifs at h with hclose hcomma
            · cases h
              rw [hclose] at hskip
              exact .last hmember hskip
            · obtain ⟨ms, rfl, hothers⟩ := map_fst_eq_ok_iff.mp h
              rw [hcomma] at hskip
              exact .more hmember hskip hothers
    · intro h
      cases h with
      | last hmember hskip =>
          obtain ⟨mid, hname, hitem⟩ := readMember_eq_ok_iff.mp hmember
          simp only [readMembers, hname, hitem, hskip, if_true]
      | more hmember hskip hothers =>
          obtain ⟨mid, hname, hitem⟩ := readMember_eq_ok_iff.mp hmember
          have hcomma : chr ',' ≠ chr '\x7d' := by decide
          simp only [readMembers, hname, hitem, hskip, hcomma, if_true, if_false]
          exact map_fst_eq_ok_iff.mpr ⟨_, rfl, hothers⟩

/-- What is enclosed and the closing bracket, after the blanks: the bracket at once, or things that
the bound leaves room for. -/
theorem Enclosed.start
    {α : Type}
    {P : Text → α → Prop}
    (hP : Opens P)
    {t : Text}
    {as : List α}
    (h : Enclosed P t as)
    (close : CodePoint)
    (hclose : isBlank close = false)
    (offset : Nat)
    (tail : Text) :
    (as = [] ∧ ∃ start, skipBlanks offset (t ++ close :: tail) = ⟨start, close :: tail⟩) ∨
      (Listed P t as ∧ ∃ start c rest,
        skipBlanks offset (t ++ close :: tail) = ⟨start, c :: rest⟩ ∧ c ≠ chr ']' ∧
          c ≠ chr '\x7d' ∧ as.length ≤ (c :: rest).length) := by
  rcases h with ⟨ht, rfl⟩ | hlisted
  · refine .inl ⟨rfl, offset + t.length, skipBlanks_append ht ?_ offset⟩
    rintro _ ⟨⟩
    exact hclose
  · obtain ⟨s, c, rest, rfl, hs, hblank, harray, hobject, hlength⟩ := hlisted.exists_start hP
    refine .inr ⟨hlisted, offset + s.length, c, rest ++ close :: tail, ?_, harray, hobject, ?_⟩
    · rw [List.append_assoc, List.cons_append]
      refine skipBlanks_append hs ?_ offset
      rintro _ ⟨⟩
      exact hblank
    · simp only [List.length_cons, List.length_append]
      omega

theorem readArray_eq
    (hitem : ReadsBy item P)
    (hP : Opens P)
    {t : Text}
    {vs : List Json}
    (h : Enclosed P t vs)
    (offset : Nat)
    (tail : Text) :
    ∃ stop, readArray item offset (t ++ chr ']' :: tail) = .ok (.array vs, ⟨stop, tail⟩) := by
  rcases h.start hP (chr ']') (by decide) offset tail with
    ⟨rfl, start, hskip⟩ | ⟨hlisted, start, c, rest, hskip, hclose, -, hlength⟩
  · exact ⟨start + 1, by simp only [readArray, hskip, if_true]⟩
  · obtain ⟨stop, hstop⟩ := repeats_readItems.takes hitem hP (by simp) (by decide) hlisted hlength
      offset tail
    rw [hskip] at hstop
    refine ⟨stop, ?_⟩
    simp only [readArray, hskip, hclose, if_false]
    exact map_fst_eq_ok_iff.mpr ⟨vs, rfl, hstop⟩

theorem readObject_eq
    (hitem : ReadsBy item P)
    (hP : Opens P)
    {t : Text}
    {ms : List (Text × Json)}
    (h : Enclosed (IsMember P) t ms)
    (offset : Nat)
    (tail : Text) :
    ∃ stop, readObject item offset (t ++ chr '\x7d' :: tail) =
      .ok (.object (Members.ofList ms), ⟨stop, tail⟩) := by
  rcases h.start opens_isMember (chr '\x7d') (by decide) offset tail with
    ⟨rfl, start, hskip⟩ | ⟨hlisted, start, c, rest, hskip, -, hclose, hlength⟩
  · refine ⟨start + 1, ?_⟩
    simp only [readObject, hskip, if_true]
    rfl
  · obtain ⟨stop, hstop⟩ := repeats_readMembers.takes (readsBy_readMember hitem hP) opens_isMember
      (by simp) (by decide) hlisted hlength offset tail
    rw [hskip] at hstop
    refine ⟨stop, ?_⟩
    simp only [readObject, hskip, hclose, if_false]
    exact map_fst_eq_ok_iff (f := fun ms => Json.object (Members.ofList ms)) |>.mpr
      ⟨ms, rfl, hstop⟩

theorem enclosed_of_readArray
    (hitem : ReadsBy item P)
    {offset : Nat}
    {t : Text}
    {v : Json}
    {stop : Cursor}
    (h : readArray item offset t = .ok (v, stop)) :
    ∃ u vs, t = u ++ chr ']' :: stop.rest ∧ v = .array vs ∧ Enclosed P u vs := by
  obtain ⟨s, hs, hblanks⟩ := exists_skipBlanks offset t
  rw [readArray] at h
  split at h
  · cases h
  · next d rest hrest =>
    split_ifs at h with hclose
    · cases h
      exact ⟨s, [], by rw [hs, hrest, hclose], rfl, .inl ⟨hblanks, rfl⟩⟩
    · obtain ⟨vs, rfl, hitems⟩ := map_fst_eq_ok_iff.mp h
      obtain ⟨u, hu, hlisted⟩ := repeats_readItems.only hitem hitems
      exact ⟨s ++ u, vs, by rw [List.append_assoc, ← hu, ← hs], rfl, .inr (hlisted.blanks hblanks)⟩

theorem enclosed_of_readObject
    (hitem : ReadsBy item P)
    (hP : Opens P)
    {offset : Nat}
    {t : Text}
    {v : Json}
    {stop : Cursor}
    (h : readObject item offset t = .ok (v, stop)) :
    ∃ u ms, t = u ++ chr '\x7d' :: stop.rest ∧ v = .object (Members.ofList ms) ∧
      Enclosed (IsMember P) u ms := by
  obtain ⟨s, hs, hblanks⟩ := exists_skipBlanks offset t
  rw [readObject] at h
  split at h
  · cases h
  · next d rest hrest =>
    split_ifs at h with hclose
    · cases h
      exact ⟨s, [], by rw [hs, hrest, hclose], rfl, .inl ⟨hblanks, rfl⟩⟩
    · obtain ⟨ms, rfl, hmembers⟩ :=
        map_fst_eq_ok_iff (f := fun ms => Json.object (Members.ofList ms)) |>.mp h
      obtain ⟨u, hu, hlisted⟩ :=
        repeats_readMembers.only (readsBy_readMember hitem hP) hmembers
      exact ⟨s ++ u, ms, by rw [List.append_assoc, ← hu, ← hs], rfl, .inr (hlisted.blanks hblanks)⟩

end Brackets

/-! ## Values -/

/-- Each word begins with a letter or with a minus, so that it is no value of another kind. -/
theorem exists_cons_of_mem_words
    {w : Text}
    {v : Json}
    (hw : (w, v) ∈ words) :
    ∃ c rest, w = c :: rest ∧ isBlank c = false ∧
      (c ≠ chr ']' ∧ c ≠ chr '\x7d' ∧ c ≠ 0xFEFF) ∧
        c ≠ chr '"' ∧ c ≠ chr '[' ∧ c ≠ chr '\x7b' := by
  simp only [words, List.mem_cons, Prod.mk.injEq, List.not_mem_nil, or_false] at hw
  rcases hw with ⟨rfl, -⟩ | ⟨rfl, -⟩ | ⟨rfl, -⟩ | ⟨rfl, -⟩ | ⟨rfl, -⟩ | ⟨rfl, -⟩ <;>
    exact ⟨_, _, rfl, by decide⟩

theorem opens_isValueWith
    {inner? : Option (Text → Json → Prop)} :
    Opens (IsValueWith inner?) := by
  intro u v h
  cases h with
  | text h =>
      obtain ⟨body, rfl, -⟩ := h
      exact ⟨chr '"', _, rfl, by decide⟩
  | word h =>
      obtain ⟨c, rest, hcons, hblank, hc, -⟩ := exists_cons_of_mem_words h
      exact ⟨c, rest, hcons, hblank, hc⟩
  | number h =>
      cases h with
      | unsigned h =>
          obtain ⟨d, rest, rfl, hd⟩ := h.exists_digit
          have hopens := opensNumber_of_isDigit hd
          simp only [opensNumber, Bool.and_eq_true, Bool.not_eq_true'] at hopens
          refine ⟨d, rest, rfl, hopens.1.1.1.1.1, ?_, ?_, ?_⟩ <;>
            · rintro rfl
              cases hd
      | negative h =>
          exact ⟨chr '-', _, rfl, by decide⟩
  | array h =>
      exact ⟨chr '[', _, rfl, by decide⟩
  | object h =>
      exact ⟨chr '\x7b', _, rfl, by decide⟩

theorem opens_isValue
    (levels : Nat) :
    Opens (IsValue levels) := by
  cases levels with
  | zero =>
      exact opens_isValueWith
  | succ levels =>
      exact opens_isValueWith

/-- What begins with neither a quote nor a bracket is read as a value without brackets. -/
theorem readWith_bare
    {c : CodePoint}
    {rest : Text}
    (hc : c ≠ chr '"' ∧ c ≠ chr '[' ∧ c ≠ chr '\x7b')
    (item? : Option (Cursor → Reading Json))
    (offset : Nat) :
    readWith item? ⟨offset, c :: rest⟩ = readBare ⟨offset, c :: rest⟩ := by
  rw [readWith]
  simp only [hc.1, hc.2.1, hc.2.2, if_false]

theorem readWith_text
    {u t : Text}
    (hu : IsQuoted u t)
    (item? : Option (Cursor → Reading Json))
    (offset : Nat)
    (tail : Text) :
    ∃ stop, readWith item? ⟨offset, u ++ tail⟩ = .ok (.text t, ⟨stop, tail⟩) := by
  obtain ⟨rest, stop, hrest, hread⟩ := hu.readText_eq offset (offset + 1) tail
  refine ⟨stop, ?_⟩
  rw [hrest, readWith]
  simp only [if_true, hread]
  rfl

theorem readWith_word
    {w : Text}
    {v : Json}
    (hw : (w, v) ∈ words)
    (item? : Option (Cursor → Reading Json))
    (offset : Nat)
    (tail : Text) :
    ∃ stop, readWith item? ⟨offset, w ++ tail⟩ = .ok (v, ⟨stop, tail⟩) := by
  obtain ⟨c, rest, rfl, -, -, hc⟩ := exists_cons_of_mem_words hw
  exact ⟨_, (readWith_bare hc item? offset).trans (readBare_word hw offset tail)⟩

theorem readWith_isNumber
    {u tail : Text}
    {v : Json}
    (hu : IsNumber u v)
    (htail : Ends tail)
    (item? : Option (Cursor → Reading Json))
    (offset : Nat) :
    ∃ stop, readWith item? ⟨offset, u ++ tail⟩ = .ok (v, ⟨stop, tail⟩) := by
  obtain ⟨stop, hread⟩ := readBare_number hu htail offset
  refine ⟨stop, ?_⟩
  rw [← hread]
  cases hu with
  | unsigned h =>
      obtain ⟨d, rest, rfl, hd⟩ := h.exists_digit
      refine readWith_bare ⟨?_, ?_, ?_⟩ item? offset <;>
        · rintro rfl
          cases hd
  | negative h =>
      exact readWith_bare (by decide) item? offset

/-- A value is read by its kind, and what is in its brackets by the reader for that. -/
theorem readsBy_readWith
    {item? : Option (Cursor → Reading Json)}
    {inner? : Option (Text → Json → Prop)}
    (hinner : Option.Rel (fun item P => ReadsBy item P ∧ Opens P) item? inner?) :
    ReadsBy (readWith item?) (IsValueWith inner?) where
  takes := by
    intro u v rest hu hrest offset
    cases hu with
    | text hu =>
        exact readWith_text hu item? offset rest
    | word hu =>
        exact readWith_word hu item? offset rest
    | number hu =>
        exact readWith_isNumber hu hrest item? offset
    | array ht =>
        obtain ⟨hitem, hP⟩ := hinner
        obtain ⟨stop, hread⟩ := readArray_eq hitem hP ht (offset + 1) rest
        have hquote : chr '[' ≠ chr '"' := by decide
        refine ⟨stop, ?_⟩
        simp only [List.cons_append, List.append_assoc, List.nil_append, readWith, hquote, if_true,
          if_false, hread]
    | object ht =>
        obtain ⟨hitem, hP⟩ := hinner
        obtain ⟨stop, hread⟩ := readObject_eq hitem hP ht (offset + 1) rest
        have hquote : chr '\x7b' ≠ chr '"' := by decide
        have harray : chr '\x7b' ≠ chr '[' := by decide
        refine ⟨stop, ?_⟩
        simp only [List.cons_append, List.append_assoc, List.nil_append, readWith, hquote, harray,
          if_true, if_false, hread]
  only := by
    intro c v stop h
    rw [readWith] at h
    split at h
    · cases h
    · next d rest hrest =>
      split_ifs at h with hquote harray hobject
      · obtain ⟨t, rfl, hread⟩ := map_fst_eq_ok_iff.mp h
        obtain ⟨u, hu, hquoted⟩ := isQuoted_of_readText hread
        exact ⟨u, by rw [hrest, hquote, hu], .text hquoted⟩
      · cases hinner with
        | none =>
            cases h
        | some hinner =>
            obtain ⟨u, vs, rfl, rfl, henclosed⟩ := enclosed_of_readArray hinner.1 h
            exact ⟨_, by rw [hrest, harray]; simp, .array henclosed⟩
      · cases hinner with
        | none =>
            cases h
        | some hinner =>
            obtain ⟨u, ms, rfl, rfl, henclosed⟩ := enclosed_of_readObject hinner.1 hinner.2 h
            exact ⟨_, by rw [hrest, hobject]; simp, .object henclosed⟩
      · obtain ⟨u, hu, hword | hnumber⟩ := word_or_number_of_readBare h
        · exact ⟨u, hu, .word hword⟩
        · exact ⟨u, hu, .number hnumber⟩

theorem readsBy_readValue
    (levels : Nat) :
    ReadsBy (readValue levels) (IsValue levels) := by
  induction levels with
  | zero =>
      exact readsBy_readWith .none
  | succ levels ih =>
      exact readsBy_readWith (.some ⟨ih, opens_isValue levels⟩)

/-- **The reader reads the grammar.** A document is read as a value exactly when it is one of that
value: a value with few enough levels of brackets and blanks around it. -/
theorem read_eq_ok_iff
    (document : Text)
    (v : Json) :
    read document = .ok v ↔ IsDocument document v := by
  constructor
  · intro h
    rw [read] at h
    split_ifs at h with hmark
    split at h
    · cases h
    · next v' stop hvalue =>
      dsimp only at h
      split_ifs at h with hend
      cases h
      obtain ⟨s, hs, hblanks⟩ := exists_skipBlanks 0 document
      obtain ⟨u, hu, hv⟩ := (readsBy_readValue depthLimit).only hvalue
      obtain ⟨s', hs', hblanks'⟩ := exists_skipBlanks stop.offset stop.rest
      rw [hend, List.append_nil] at hs'
      exact ⟨s, u, s', by rw [hs, hu, ← hs'], hblanks, hs' ▸ hblanks', hv⟩
  · rintro ⟨s, u, s', rfl, hs, hs', hu⟩
    obtain ⟨c, more, rfl, hblank, -, -, hc⟩ := opens_isValue depthLimit hu
    obtain ⟨stop, hvalue⟩ :=
      (readsBy_readValue depthLimit).takes hu (ends_of_isBlanks hs') (0 + s.length)
    have hstart : skipBlanks 0 (s ++ (c :: more ++ s')) = ⟨0 + s.length, c :: more ++ s'⟩ := by
      refine skipBlanks_append hs ?_ 0
      rintro _ ⟨⟩
      exact hblank
    have hend : skipBlanks stop s' = ⟨stop + s'.length, []⟩ := by
      have hskip : skipBlanks stop (s' ++ []) = ⟨stop + s'.length, []⟩ :=
        skipBlanks_append hs' (by rintro _ ⟨⟩) stop
      rwa [List.append_nil] at hskip
    have hmark : (s ++ (c :: more ++ s')).head? ≠ some 0xFEFF := by
      cases s with
      | nil =>
          rintro ⟨⟩
          exact hc rfl
      | cons d s =>
          rintro ⟨⟩
          cases hs _ List.mem_cons_self
    rw [read, if_neg hmark, hstart, hvalue]
    simp only [hend, if_true]

/-- An object that is read gives each name the value of its last member. -/
theorem read_of_isObject
    {levels : Nat}
    (hlevels : levels < depthLimit)
    {document : Text}
    {ms : List (Text × Json)}
    (h : IsObject levels document ms) :
    read document = .ok (.object (Members.ofList ms)) :=
  (read_eq_ok_iff document _).mpr (h.isDocument hlevels)

/-- A string in an object that is read from a text without surrogates has no pair of them: a pair of
escapes is read as the code point that it stands for. -/
theorem unpaired_of_find?
    {document : Text}
    (hscalar : ∀ c ∈ document, c.isSurrogate = false)
    {members : Members}
    (hread : read document = .ok (.object members))
    {name t : Text}
    (ht : members.find? name = some (.text t)) :
    t.Unpaired := by
  obtain ⟨levels, ms, hobject, rfl⟩ :=
    IsDocument.exists_isObject ((read_eq_ok_iff document _).mp hread)
  obtain ⟨before, after, hms, -⟩ := Members.find?_ofList_eq_some_iff.mp ht
  have hmem : (name, Json.text t) ∈ ms := by simp [hms]
  obtain ⟨u, hu, body, rfl, hbody⟩ := hobject.exists_isQuoted hmem
  exact hbody.unpaired fun c hc => hscalar c (hu.subset (by simp [hc]))

end Json

end Keybox
