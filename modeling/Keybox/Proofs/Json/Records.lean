import Keybox.Proofs.Json.Strings

/-!
# Records are read as they were written

The text of a record with distinct names is read as the object of its members, in their order. The
reader is followed member by member; where it stops is only said by the text that is left. Members
with a repeated name are the object in which the last of them counts.
-/

namespace Keybox

/-- The members of the object that a record is written as. -/
def Record.members
    (r : Record) : Members :=
  r.map fun m => (m.1, .text m.2)

/-- A record of names and values without surrogate pairs. -/
def Record.Unpaired
    (r : Record) : Prop :=
  ∀ m ∈ r, m.1.Unpaired ∧ m.2.Unpaired

namespace Members

/-- Names that are not there yet are put at the end. -/
theorem set_of_notMem
    {name : Text}
    {ms : Members}
    (h : name ∉ ms.map Prod.fst)
    (v : Json) :
    set name v ms = ms ++ [(name, v)] := by
  induction ms with
  | nil =>
      rfl
  | cons m ms ih =>
      simp only [List.map_cons, List.mem_cons, not_or] at h
      rw [set, if_neg (Ne.symm h.1), ih h.2]
      rfl

theorem foldl_set_of_nodup
    (done ms : Members)
    (h : ((done ++ ms).map Prod.fst).Nodup) :
    ms.foldl (fun ms m => set m.1 m.2 ms) done = done ++ ms := by
  induction ms generalizing done with
  | nil =>
      simp
  | cons m ms ih =>
      have hm : m.1 ∉ done.map Prod.fst := by
        intro hmem
        rw [List.map_append, List.nodup_append] at h
        exact h.2.2 m.1 hmem m.1 (by simp) rfl
      rw [List.foldl_cons, set_of_notMem hm, ih _ (by simpa using h)]
      simp

/-- Members with distinct names are what they are read as. -/
theorem ofList_of_nodup
    {ms : Members}
    (h : (ms.map Prod.fst).Nodup) :
    ofList ms = ms :=
  foldl_set_of_nodup [] ms h

/-- The last of the members with a name has a value. -/
def Last
    (ms : List (Text × Json))
    (name : Text)
    (v : Json) : Prop :=
  ∃ before after, ms = before ++ (name, v) :: after ∧ name ∉ after.map Prod.fst

theorem find?_set
    (name other : Text)
    (v : Json)
    (ms : Members) :
    find? other (set name v ms) = if name = other then some v else find? other ms := by
  induction ms with
  | nil =>
      rfl
  | cons m ms ih =>
      obtain ⟨n, w⟩ := m
      rw [set]
      split
      · next hname =>
        subst hname
        simp only [find?]
        split <;> rfl
      · next hname =>
        simp only [find?, ih]
        split
        · next hother =>
          subst hother
          rw [if_neg (Ne.symm hname)]
        · rfl

theorem ofList_concat
    (ms : List (Text × Json))
    (m : Text × Json) :
    ofList (ms ++ [m]) = set m.1 m.2 (ofList ms) :=
  List.foldl_append ..

theorem last_concat_iff
    {ms : List (Text × Json)}
    {m : Text × Json}
    {name : Text}
    {v : Json} :
    Last (ms ++ [m]) name v ↔ if m.1 = name then m.2 = v else Last ms name v := by
  split
  · next hname =>
    constructor
    · rintro ⟨before, after, h, hafter⟩
      rcases List.eq_nil_or_concat' after with rfl | ⟨after, n, rfl⟩
      · rw [List.singleton_inj.mp (List.append_inj' h rfl).2]
      · rw [← List.cons_append, ← List.append_assoc] at h
        obtain rfl := List.singleton_inj.mp (List.append_inj' h rfl).2
        simp [hname] at hafter
    · rintro rfl
      exact ⟨ms, [], by rw [← hname], by simp⟩
  · next hname =>
    constructor
    · rintro ⟨before, after, h, hafter⟩
      rcases List.eq_nil_or_concat' after with rfl | ⟨after, n, rfl⟩
      · obtain rfl := List.singleton_inj.mp (List.append_inj' h rfl).2
        exact absurd rfl hname
      · rw [← List.cons_append, ← List.append_assoc] at h
        obtain ⟨rfl, -⟩ := List.append_inj' h rfl
        exact ⟨before, after, rfl, fun hmem => hafter (by simp [hmem])⟩
    · rintro ⟨before, after, rfl, hafter⟩
      exact ⟨before, after ++ [m], by simp, by simpa [Ne.symm hname] using hafter⟩

/-- A name has the value that its last member gives. -/
theorem find?_ofList_eq_some_iff
    {ms : List (Text × Json)}
    {name : Text}
    {v : Json} :
    (ofList ms).find? name = some v ↔ Last ms name v := by
  induction ms using List.reverseRecOn with
  | nil =>
      refine iff_of_false (by rintro ⟨⟩) ?_
      rintro ⟨before, after, h, -⟩
      exact absurd h.symm (by simp)
  | append_singleton ms m ih =>
      rw [ofList_concat, find?_set, last_concat_iff]
      split
      · exact Option.some_inj
      · exact ih

theorem find?_ofList_eq_none_iff
    {ms : List (Text × Json)}
    {name : Text} :
    (ofList ms).find? name = none ↔ name ∉ ms.map Prod.fst := by
  induction ms using List.reverseRecOn with
  | nil =>
      exact iff_of_true rfl (by simp)
  | append_singleton ms m ih =>
      rw [ofList_concat, find?_set, List.map_append, List.mem_append, not_or, ← ih]
      split
      · next hname =>
        exact iff_of_false (by simp) (by simp [hname])
      · next hname =>
        simp [Ne.symm hname]

end Members

namespace Json

/-! ## Members -/

theorem skipBlanks_cons
    {c : CodePoint}
    (hc : isBlank c = false)
    (offset : Nat)
    (rest : Text) :
    skipBlanks offset (c :: rest) = ⟨offset, c :: rest⟩ := by
  simp [skipBlanks, hc]

theorem skipBlanks_space
    {c : CodePoint}
    (hc : isBlank c = false)
    (offset : Nat)
    (rest : Text) :
    skipBlanks offset (chr ' ' :: c :: rest) = ⟨offset + 1, c :: rest⟩ := by
  rw [skipBlanks, if_pos (by decide), skipBlanks_cons hc]

/-- A value that was written as a string is read as that string. -/
theorem readWith_writeText
    (item? : Option (Cursor → Reading Json))
    (offset : Nat)
    {t : Text}
    (ht : t.Unpaired)
    (tail : Text) :
    ∃ stop, readWith item? ⟨offset, Record.writeText t ++ tail⟩ = .ok (.text t, ⟨stop, tail⟩) := by
  obtain ⟨rest, stop, hcons, hread⟩ := readText_writeText ht offset (offset + 1) tail
  refine ⟨stop, ?_⟩
  rw [hcons, readWith]
  simp only [if_true, hread]
  rfl

theorem readName_writeText
    (offset : Nat)
    {name : Text}
    (hname : name.Unpaired)
    {c : CodePoint}
    (hc : isBlank c = false)
    (tail : Text) :
    ∃ stop, readName ⟨offset, Record.writeText name ++ (lit ": " ++ c :: tail)⟩ =
      .ok (name, ⟨stop, c :: tail⟩) := by
  obtain ⟨rest, stop, hcons, hread⟩ :=
    readText_writeText hname offset (offset + 1) (lit ": " ++ c :: tail)
  have hcolon : ∀ stop, skipBlanks stop (lit ": " ++ c :: tail) =
      ⟨stop, chr ':' :: chr ' ' :: c :: tail⟩ :=
    fun stop => skipBlanks_cons (by decide) stop _
  refine ⟨stop + 1 + 1, ?_⟩
  rw [hcons, readName]
  simp only [if_true, hread, hcolon, skipBlanks_space hc]

section Members

variable {item : Cursor → Reading Json}

/-- A reader of values that reads what strings are written as. -/
def ReadsTexts
    (item : Cursor → Reading Json) : Prop :=
  ∀ (offset : Nat) (t tail : Text), t.Unpaired →
    ∃ stop, item ⟨offset, Record.writeText t ++ tail⟩ = .ok (.text t, ⟨stop, tail⟩)

theorem readsTexts_readValue
    (depth : Nat) :
    ReadsTexts (readValue depth) := by
  intro offset t tail ht
  cases depth with
  | zero =>
      exact readWith_writeText none offset ht tail
  | succ depth =>
      exact readWith_writeText (some (readValue depth)) offset ht tail

/-- The name and the value of a member that was written are read one after the other. -/
theorem readMember_writeMember
    (hitem : ReadsTexts item)
    (offset : Nat)
    {m : Text × Text}
    (hm : m.1.Unpaired ∧ m.2.Unpaired)
    (tail : Text) :
    ∃ mid stop, readName ⟨offset, Record.writeMember m ++ tail⟩ = .ok (m.1, mid) ∧
      item mid = .ok (.text m.2, ⟨stop, tail⟩) := by
  have hvalue : Record.writeText m.2 ++ tail =
      chr '"' :: (m.2.flatMap Record.writePoint ++ chr '"' :: tail) := by
    simp [Record.writeText]
  obtain ⟨start, hname⟩ :=
    readName_writeText offset hm.1 (c := chr '"') (by decide)
      (m.2.flatMap Record.writePoint ++ chr '"' :: tail)
  obtain ⟨stop, hread⟩ := hitem start m.2 tail hm.2
  rw [hvalue] at hread
  refine ⟨_, stop, ?_, hread⟩
  rw [Record.writeMember, List.append_assoc, List.append_assoc, hvalue, hname]

/-- What a record that is not empty is written as begins with a quote. -/
theorem exists_join_eq_cons
    (m : Text × Text)
    (ms : Record)
    (tail : Text) :
    ∃ u, Text.join (lit ", ") ((m :: ms).map Record.writeMember) ++ tail = chr '"' :: u := by
  cases ms with
  | nil =>
      exact ⟨_, rfl⟩
  | cons n ms =>
      exact ⟨_, rfl⟩

/-- The members of a record that is not empty are read up to behind the closing bracket. -/
theorem readMembers_join
    (hitem : ReadsTexts item)
    (m : Text × Text)
    (ms : Record)
    (hms : Record.Unpaired (m :: ms))
    (bound offset : Nat)
    (hbound : ms.length < bound)
    (tail : Text) :
    ∃ stop, readMembers item bound
        ⟨offset, Text.join (lit ", ") ((m :: ms).map Record.writeMember) ++
          chr '\x7d' :: tail⟩ =
      .ok (Record.members (m :: ms), ⟨stop, tail⟩) := by
  induction ms generalizing m bound offset with
  | nil =>
      obtain ⟨bound, rfl⟩ := Nat.exists_eq_add_of_lt hbound
      obtain ⟨mid, stop, hname, hvalue⟩ :=
        readMember_writeMember hitem offset (hms m (by simp)) (chr '\x7d' :: tail)
      refine ⟨stop + 1, ?_⟩
      simp only [List.map_cons, List.map_nil, Text.join, readMembers, hname, hvalue,
        skipBlanks_cons (c := chr '\x7d') (by decide), if_true]
      rfl
  | cons n ms ih =>
      obtain ⟨bound, rfl⟩ := Nat.exists_eq_add_of_lt hbound
      obtain ⟨u, hu⟩ := exists_join_eq_cons n ms (chr '\x7d' :: tail)
      obtain ⟨mid, stop, hname, hvalue⟩ :=
        readMember_writeMember hitem offset (hms m (by simp))
          (chr ',' :: chr ' ' :: chr '"' :: u)
      obtain ⟨last, hrest⟩ :=
        ih n (fun k hk => hms k (List.mem_cons_of_mem m hk)) (ms.length + 1 + bound)
          (stop + 1 + 1) (by omega)
      have hjoin : Text.join (lit ", ") ((m :: n :: ms).map Record.writeMember) ++
          chr '\x7d' :: tail =
            Record.writeMember m ++ chr ',' :: chr ' ' :: chr '"' :: u := by
        rw [← hu]
        simp [Text.join, lit, chr]
      refine ⟨last, ?_⟩
      rw [hu] at hrest
      rw [hjoin]
      have hcomma := skipBlanks_cons (c := chr ',') (by decide) stop (chr ' ' :: chr '"' :: u)
      have hspace := skipBlanks_space (c := chr '"') (by decide) (stop + 1) u
      simp only [List.length_cons, readMembers, hname, hvalue, hcomma, hspace, hrest]
      rfl

end Members

/-! ## Whole records -/

/-- The bound on the number of members is no restriction: each takes some text. -/
theorem length_lt_length_join
    (m : Text × Text)
    (ms : Record) :
    ms.length < (Text.join (lit ", ") ((m :: ms).map Record.writeMember)).length := by
  have hpos : ∀ n : Text × Text, 0 < (Record.writeMember n).length := by
    intro n
    simp [Record.writeMember, Record.writeText]
  induction ms generalizing m with
  | nil =>
      exact hpos m
  | cons n ms ih =>
      have hmore := ih n
      have hjoin : (Text.join (lit ", ") ((m :: n :: ms).map Record.writeMember)).length =
          (Record.writeMember m).length + 2 +
            (Text.join (lit ", ") ((n :: ms).map Record.writeMember)).length := by
        simp [Text.join, lit]
        omega
      have := hpos m
      rw [hjoin, List.length_cons]
      omega

theorem readObject_write
    {item : Cursor → Reading Json}
    (hitem : ReadsTexts item)
    (r : Record)
    (hr : r.Unpaired)
    (hnames : (r.map Prod.fst).Nodup)
    (offset : Nat) :
    ∃ stop, readObject item offset
        (Text.join (lit ", ") (r.map Record.writeMember) ++ lit "\x7d") =
      .ok (.object r.members, ⟨stop, []⟩) := by
  cases r with
  | nil =>
      exact ⟨offset + 1, rfl⟩
  | cons m ms =>
      obtain ⟨u, hu⟩ := exists_join_eq_cons m ms (lit "\x7d")
      have hlength := congrArg List.length hu
      have hbound := length_lt_length_join m ms
      rw [List.length_append] at hlength
      obtain ⟨stop, hread⟩ :=
        readMembers_join hitem m ms hr (chr '"' :: u).length offset (by omega) []
      have hmembers : Members.ofList (Record.members (m :: ms)) = Record.members (m :: ms) :=
        Members.ofList_of_nodup (by simpa [Record.members, Function.comp_def] using hnames)
      refine ⟨stop, ?_⟩
      have hclose : lit "\x7d" = chr '\x7d' :: [] := rfl
      rw [hclose] at hu ⊢
      rw [hu] at hread ⊢
      simp only [readObject, skipBlanks_cons (c := chr '"') (by decide), hread]
      simp only [Except.map, hmembers]
      rfl

/-- **Records are read back.** A record with distinct names and without surrogate pairs is read from
its text as the object of its members, in their order. -/
theorem read_write
    (r : Record)
    (hr : r.Unpaired)
    (hnames : (r.map Prod.fst).Nodup) :
    read r.write = .ok (.object r.members) := by
  have hdepth : depthLimit = 989 + 1 := rfl
  obtain ⟨stop, hread⟩ :=
    readObject_write (readsTexts_readValue 989) r hr hnames 1
  have hwrite : r.write =
      chr '\x7b' :: (Text.join (lit ", ") (r.map Record.writeMember) ++ lit "\x7d") := rfl
  rw [hwrite, read, if_neg (by simp [chr, CodePoint.ofChar]), hdepth, readValue,
    skipBlanks_cons (by decide), readWith]
  simp only [if_true, hread]
  rfl

end Json

end Keybox
