import Mathlib.Data.List.Basic
import Scriptlet.Syntax.Progress

/-!
# Readings of a front part

A parser reads a value from a front part of the tokens, given what follows, when it uses exactly
that part; what it reports on the way is a part of the reading, and the reading is clean when that
is nothing. Readings of a composed parser split into readings of its parts, in both directions, so
that one lemma for each combinator serves for showing what a parser accepts and for showing what
it refuses. A parser with a limit either reads cleanly or finds too much nesting before any other
fault.
-/

namespace Scriptlet

variable {α β : Type}

/-- The first fault that a reading met: one that it reported, or else the one that stopped it. -/
def Reading.firstFault? (r : Reading (Except SyntaxFault α)) : Option SyntaxFault :=
  match r.reported, r.value with
  | c :: _, _ => some c.fault
  | [], .error fault => some fault
  | [], .ok _ => none

namespace Parser

section andThen
variable {p : Parser α} {f : α → Parser β} {ts : List Token}

lemma andThen_of_error {fault : SyntaxFault} (h : (p ts).value = .error fault) :
    p.andThen f ts = ⟨.error fault, (p ts).used, (p ts).reported⟩ := by
  unfold Parser.andThen
  simp only [h]

lemma andThen_of_ok {a : α} (h : (p ts).value = .ok a) :
    p.andThen f ts =
      ⟨(f a (ts.drop (p ts).used)).value, (p ts).used + (f a (ts.drop (p ts).used)).used,
        (p ts).reported ++ (f a (ts.drop (p ts).used)).reported⟩ := by
  unfold Parser.andThen
  simp only [h]

lemma andThen_assoc {γ : Type} (p : Parser α) (f : α → Parser β) (g : β → Parser γ) :
    (p.andThen f).andThen g = p.andThen (fun a => (f a).andThen g) := by
  funext ts
  cases hp : (p ts).value with
  | error fault =>
    have hpf : (p.andThen f ts).value = .error fault := by rw [andThen_of_error hp]
    rw [andThen_of_error hpf, andThen_of_error hp, andThen_of_error hp]
  | ok a =>
    rw [andThen_of_ok hp]
    cases hf : (f a (ts.drop (p ts).used)).value with
    | error fault =>
      have hpf : (p.andThen f ts).value = .error fault := by rw [andThen_of_ok hp, hf]
      rw [andThen_of_error hpf, andThen_of_ok hp, andThen_of_error hf]
    | ok b =>
      have hpf : (p.andThen f ts).value = .ok b := by rw [andThen_of_ok hp, hf]
      rw [andThen_of_ok hpf, andThen_of_ok hp, andThen_of_ok hf]
      simp only [List.drop_drop, Nat.add_assoc, List.append_assoc]

lemma succeed_andThen (a : α) : (succeed a).andThen f = f a := by
  funext ts
  rw [andThen_of_ok (a := a) rfl]
  simp [succeed]

lemma expect_andThen {kind : TokenKind} {fault : SyntaxFault} {f : Token → Parser β} :
    (expect kind fault).andThen f =
      onFront (fun t => if t.kind = kind then some (f t) else none) (fail fault) := by
  funext ts
  cases ts with
  | nil => rfl
  | cons t more =>
    by_cases h : t.kind = kind
    · simp [Parser.andThen, expect, onFront, h, succeed, Reading.after]
    · simp [Parser.andThen, expect, onFront, h, fail]

lemma accept_andThen {kind : TokenKind} {f : Option Token → Parser β} :
    (accept kind).andThen f =
      onFront (fun t => if t.kind = kind then some (f (some t)) else none) (f none) := by
  funext ts
  cases ts with
  | nil => simp [Parser.andThen, accept, onFront, succeed]
  | cons t more =>
    by_cases h : t.kind = kind
    · simp [Parser.andThen, accept, onFront, h, succeed, Reading.after]
    · simp [Parser.andThen, accept, onFront, h, succeed]

end andThen

/-- The parser reads `a` from exactly the tokens of `front`, and reports `cs`, when `rest` follows
them. -/
def ReadsWith (p : Parser α) (front : List Token) (a : α) (cs : List Complaint)
    (rest : List Token) : Prop :=
  p (front ++ rest) = ⟨.ok a, front.length, cs⟩

/-- The parser reads `a` from exactly the tokens of `front`, and reports nothing, when `rest`
follows them. -/
def Reads (p : Parser α) (front : List Token) (a : α) (rest : List Token) : Prop :=
  p (front ++ rest) = ⟨.ok a, front.length, []⟩

/-- As long as `fits` holds, the parser reads `a` from `front`; when it does not hold, too much
nesting is the first fault. -/
def ReadsWhen (fits : Prop) (p : Parser α) (front : List Token) (a : α) (rest : List Token) :
    Prop :=
  (fits → p.Reads front a rest) ∧
    (¬ fits → (p (front ++ rest)).firstFault? = some .tooMuchNesting)

section ReadsWith
variable {p : Parser α} {f : α → Parser β} {front back rest : List Token} {a : α} {b : β}
  {cs ds : List Complaint}

lemma readsWith_succeed {c : α} :
    (succeed a).ReadsWith front c cs rest ↔ front = [] ∧ c = a ∧ cs = [] := by
  simp only [ReadsWith, succeed, Reading.mk.injEq, Except.ok.injEq]
  rw [eq_comm (a := a), eq_comm (a := 0), List.length_eq_zero_iff, eq_comm (a := []),
    and_left_comm]

lemma not_readsWith_fail {fault : SyntaxFault} :
    ¬ (fail fault : Parser α).ReadsWith front a cs rest := by
  simp [ReadsWith, fail]

lemma readsWith_report {fault : SyntaxFault} {t : Token} {u : Unit} :
    (report fault t).ReadsWith front u cs rest ↔ front = [] ∧ cs = [⟨fault, some t⟩] := by
  simp only [ReadsWith, report, Reading.mk.injEq, true_and]
  rw [eq_comm (a := 0), List.length_eq_zero_iff, eq_comm (b := cs)]

lemma readsWith_always {read : List Token → Reading α} :
    (always read).ReadsWith front a cs rest ↔ read (front ++ rest) = ⟨a, front.length, cs⟩ := by
  unfold ReadsWith always
  generalize read (front ++ rest) = r
  cases r
  simp

lemma ReadsWith.andThen (hp : p.ReadsWith front a cs (back ++ rest))
    (hf : (f a).ReadsWith back b ds rest) :
    (p.andThen f).ReadsWith (front ++ back) b (cs ++ ds) rest := by
  unfold ReadsWith at *
  rw [List.append_assoc]
  simp only [Parser.andThen, hp, List.drop_left, hf, List.length_append]

lemma exists_split {n : Nat} (rest : List Token) (h : n ≤ front.length) :
    ∃ left right, front = left ++ right ∧ left.length = n ∧
      (front ++ rest).drop n = right ++ rest := by
  refine ⟨front.take n, front.drop n, (List.take_append_drop n front).symm, ?_, ?_⟩
  · rw [List.length_take, Nat.min_eq_left h]
  · exact List.drop_append_of_le_length h

lemma readsWith_andThen : (p.andThen f).ReadsWith front b cs rest ↔
    ∃ a left right cs₁ cs₂, front = left ++ right ∧ cs = cs₁ ++ cs₂ ∧
      p.ReadsWith left a cs₁ (right ++ rest) ∧ (f a).ReadsWith right b cs₂ rest := by
  constructor
  · intro h
    unfold ReadsWith Parser.andThen at h
    dsimp only at h
    cases hv : (p (front ++ rest)).value with
    | error fault =>
      rw [hv] at h
      simp at h
    | ok a =>
      simp only [hv, Reading.mk.injEq] at h
      obtain ⟨hb, hused, hrep⟩ := h
      have hle : (p (front ++ rest)).used ≤ front.length := by omega
      obtain ⟨left, right, rfl, hleft, hdrop⟩ := exists_split rest hle
      rw [hdrop] at hb hused hrep
      have hright : (f a (right ++ rest)).used = right.length := by
        rw [List.length_append] at hused
        omega
      refine ⟨a, left, right, _, _, rfl, hrep.symm, ?_, ?_⟩
      · unfold ReadsWith
        rw [← List.append_assoc, hleft, ← hv]
      · unfold ReadsWith
        rw [← hright, ← hb]
  · rintro ⟨a, left, right, cs₁, cs₂, rfl, rfl, hp, hf⟩
    exact hp.andThen hf

section onFront
variable {choose : Token → Option (Parser α)} {otherwise : Parser α}

lemma ReadsWith.onFront_some {t : Token} (hc : choose t = some p)
    (hp : p.ReadsWith front a cs rest) :
    (onFront choose otherwise).ReadsWith (t :: front) a cs rest := by
  unfold ReadsWith at *
  rw [List.cons_append, onFront, hc]
  dsimp only
  rw [hp, Reading.after, List.length_cons, Nat.add_comm]

lemma ReadsWith.onFront_none (hc : ∀ t ∈ (front ++ rest).head?, choose t = none)
    (ho : otherwise.ReadsWith front a cs rest) :
    (onFront choose otherwise).ReadsWith front a cs rest := by
  unfold ReadsWith at *
  cases hts : front ++ rest with
  | nil => rw [onFront, ← hts, ho]
  | cons t ts =>
    rw [hts] at hc
    rw [onFront, hc t rfl, ← hts]
    exact ho

lemma readsWith_onFront : (onFront choose otherwise).ReadsWith front a cs rest ↔
    (∃ t q more, front = t :: more ∧ choose t = some q ∧ q.ReadsWith more a cs rest) ∨
      (∀ t ∈ (front ++ rest).head?, choose t = none) ∧
        otherwise.ReadsWith front a cs rest := by
  constructor
  · intro h
    cases hts : front ++ rest with
    | nil =>
      refine Or.inr ⟨fun t ht => (by cases ht), ?_⟩
      unfold ReadsWith at *
      rw [hts] at h ⊢
      exact h
    | cons t ts =>
      cases hc : choose t with
      | none =>
        refine Or.inr ⟨fun u hu => ?_, ?_⟩
        · cases hu
          exact hc
        · unfold ReadsWith at *
          rw [hts] at h ⊢
          simpa only [onFront, hc] using h
      | some q =>
        unfold ReadsWith at h
        rw [hts] at h
        simp only [onFront, hc, Reading.after, Reading.mk.injEq] at h
        obtain ⟨hv, hused, hrep⟩ := h
        cases front with
        | nil => simp at hused
        | cons u more =>
          rw [List.cons_append, List.cons.injEq] at hts
          obtain ⟨rfl, rfl⟩ := hts
          rw [List.length_cons] at hused
          have hu : (q (more ++ rest)).used = more.length := by omega
          exact Or.inl ⟨u, q, more, rfl, hc, by unfold ReadsWith; rw [← hv, ← hu, ← hrep]⟩
  · rintro (⟨t, q, more, rfl, hc, hq⟩ | ⟨hc, ho⟩)
    · exact hq.onFront_some hc
    · exact ho.onFront_none hc

end onFront

lemma readsWith_expect {kind : TokenKind} {fault : SyntaxFault} {t : Token} :
    (expect kind fault).ReadsWith front t cs rest ↔ front = [t] ∧ t.kind = kind ∧ cs = [] := by
  unfold expect
  rw [readsWith_onFront]
  constructor
  · rintro (⟨u, q, more, rfl, hc, hq⟩ | ⟨-, hf⟩)
    · split at hc
      · rename_i hk
        cases hc
        obtain ⟨rfl, rfl, rfl⟩ := readsWith_succeed.mp hq
        exact ⟨rfl, hk, rfl⟩
      · cases hc
    · exact absurd hf not_readsWith_fail
  · rintro ⟨rfl, hk, rfl⟩
    exact Or.inl ⟨t, succeed t, [], rfl, if_pos hk, readsWith_succeed.mpr ⟨rfl, rfl, rfl⟩⟩

/-- Whether `kind` stands at the front of the tokens. -/
def Fronts (kind : TokenKind) (ts : List Token) : Prop := ∃ t ∈ ts.head?, t.kind = kind

lemma readsWith_accept {kind : TokenKind} {o : Option Token} :
    (accept kind).ReadsWith front o cs rest ↔
      (∃ t, o = some t ∧ front = [t] ∧ t.kind = kind ∧ cs = []) ∨
        o = none ∧ front = [] ∧ cs = [] ∧ ¬ Fronts kind rest := by
  unfold accept
  rw [readsWith_onFront]
  constructor
  · rintro (⟨t, q, more, rfl, hc, hq⟩ | ⟨hc, ho⟩)
    · split at hc
      · rename_i hk
        cases hc
        obtain ⟨rfl, rfl, rfl⟩ := readsWith_succeed.mp hq
        exact Or.inl ⟨t, rfl, rfl, hk, rfl⟩
      · cases hc
    · obtain ⟨rfl, rfl, rfl⟩ := readsWith_succeed.mp ho
      refine Or.inr ⟨rfl, rfl, rfl, ?_⟩
      rintro ⟨t, ht, hk⟩
      have := hc t ht
      rw [if_pos hk] at this
      cases this
  · rintro (⟨t, rfl, rfl, hk, rfl⟩ | ⟨rfl, rfl, rfl, hk⟩)
    · exact Or.inl ⟨t, succeed (some t), [], rfl, if_pos hk,
        readsWith_succeed.mpr ⟨rfl, rfl, rfl⟩⟩
    · exact Or.inr ⟨fun t ht => if_neg (fun h => hk ⟨t, ht, h⟩),
        readsWith_succeed.mpr ⟨rfl, rfl, rfl⟩⟩

end ReadsWith

section Reads
variable {p : Parser α} {f : α → Parser β} {front back rest : List Token} {a : α} {b : β}

lemma reads_iff : p.Reads front a rest ↔ p.ReadsWith front a [] rest := Iff.rfl

lemma reads_succeed {c : α} : (succeed a).Reads front c rest ↔ front = [] ∧ c = a := by
  rw [reads_iff, readsWith_succeed, and_iff_left rfl]

lemma reads_always {read : List Token → Reading α} :
    (always read).Reads front a rest ↔ read (front ++ rest) = ⟨a, front.length, []⟩ :=
  readsWith_always

lemma Reads.andThen (hp : p.Reads front a (back ++ rest)) (hf : (f a).Reads back b rest) :
    (p.andThen f).Reads (front ++ back) b rest := ReadsWith.andThen hp hf

lemma Reads.andThen_nil (hp : p.Reads front a rest) (hf : (f a).Reads [] b rest) :
    (p.andThen f).Reads front b rest := by
  have h : (p.andThen f).Reads (front ++ []) b rest := Reads.andThen hp hf
  rwa [List.append_nil] at h

lemma Reads.onFront_some {choose : Token → Option (Parser α)} {otherwise : Parser α} {t : Token}
    (hc : choose t = some p) (hp : p.Reads front a rest) :
    (onFront choose otherwise).Reads (t :: front) a rest := ReadsWith.onFront_some hc hp

lemma Reads.onFront_none {choose : Token → Option (Parser α)} {otherwise : Parser α}
    (hc : ∀ t ∈ (front ++ rest).head?, choose t = none) (ho : otherwise.Reads front a rest) :
    (onFront choose otherwise).Reads front a rest := ReadsWith.onFront_none hc ho

lemma reads_expect {kind : TokenKind} {fault : SyntaxFault} {t : Token} :
    (expect kind fault).Reads front t rest ↔ front = [t] ∧ t.kind = kind := by
  rw [reads_iff, readsWith_expect, and_iff_left rfl]

lemma reads_accept {kind : TokenKind} {o : Option Token} :
    (accept kind).Reads front o rest ↔
      (∃ t, o = some t ∧ front = [t] ∧ t.kind = kind) ∨
        o = none ∧ front = [] ∧ ¬ Fronts kind rest := by
  rw [reads_iff, readsWith_accept]
  simp only [and_true, true_and]

end Reads

section firstFault
variable {p : Parser α} {f : α → Parser β} {front rest ts : List Token} {a : α}
  {fault : SyntaxFault}

lemma firstFault?_andThen (h : (p ts).firstFault? = some fault) :
    (p.andThen f ts).firstFault? = some fault := by
  unfold Parser.andThen
  revert h
  generalize p ts = r
  obtain ⟨value, used, reported⟩ := r
  intro h
  cases reported with
  | nil =>
    cases value with
    | error e => exact h
    | ok a => cases h
  | cons c cs =>
    cases value with
    | error e => exact h
    | ok a => exact h

lemma Reads.firstFault?_andThen (hp : p.Reads front a rest) :
    (p.andThen f (front ++ rest)).firstFault? = (f a rest).firstFault? := by
  unfold Reads at hp
  unfold Parser.andThen
  simp only [hp, List.drop_left, List.nil_append]
  rfl

end firstFault

section ReadsWhen
variable {fits fits' : Prop} {p : Parser α} {f : α → Parser β}
  {front back rest : List Token} {a : α} {b : β}

lemma Reads.when (hp : p.Reads front a rest) : ReadsWhen True p front a rest :=
  ⟨fun _ => hp, fun h => absurd trivial h⟩

lemma ReadsWhen.congr (h : ReadsWhen fits p front a rest) (hf : fits' ↔ fits) :
    ReadsWhen fits' p front a rest := by
  rwa [propext hf]

lemma ReadsWhen.andThen (hp : ReadsWhen fits p front a (back ++ rest))
    (hf : ReadsWhen fits' (f a) back b rest) :
    ReadsWhen (fits ∧ fits') (p.andThen f) (front ++ back) b rest := by
  refine ⟨fun h => (hp.1 h.1).andThen (hf.1 h.2), fun h => ?_⟩
  rw [List.append_assoc]
  by_cases hfits : fits
  · rw [(hp.1 hfits).firstFault?_andThen]
    exact hf.2 (fun h' => h ⟨hfits, h'⟩)
  · exact firstFault?_andThen (hp.2 hfits)

lemma ReadsWhen.andThen_reads (hp : ReadsWhen fits p front a (back ++ rest))
    (hf : (f a).Reads back b rest) : ReadsWhen fits (p.andThen f) (front ++ back) b rest :=
  (hp.andThen hf.when).congr (by rw [and_true])

lemma Reads.andThen_when (hp : p.Reads front a (back ++ rest))
    (hf : ReadsWhen fits (f a) back b rest) :
    ReadsWhen fits (p.andThen f) (front ++ back) b rest :=
  (hp.when.andThen hf).congr (by rw [true_and])

lemma ReadsWhen.andThen_nil (hp : ReadsWhen fits p front a rest) (hf : (f a).Reads [] b rest) :
    ReadsWhen fits (p.andThen f) front b rest := by
  have h : ReadsWhen fits (p.andThen f) (front ++ []) b rest := ReadsWhen.andThen_reads hp hf
  rwa [List.append_nil] at h

lemma ReadsWhen.map {g : α → β} (hp : ReadsWhen fits p front a rest) :
    ReadsWhen fits (p.andThen (fun a => succeed (g a))) front (g a) rest :=
  hp.andThen_nil (reads_succeed.mpr ⟨rfl, rfl⟩)

lemma ReadsWhen.onFront_some {choose : Token → Option (Parser α)} {otherwise : Parser α}
    {t : Token} (hc : choose t = some p) (hp : ReadsWhen fits p front a rest) :
    ReadsWhen fits (onFront choose otherwise) (t :: front) a rest := by
  refine ⟨fun h => (hp.1 h).onFront_some hc, fun h => ?_⟩
  rw [List.cons_append, onFront, hc]
  exact hp.2 h

lemma ReadsWhen.onFront_none {choose : Token → Option (Parser α)} {otherwise : Parser α}
    (hc : ∀ t ∈ (front ++ rest).head?, choose t = none)
    (ho : ReadsWhen fits otherwise front a rest) :
    ReadsWhen fits (onFront choose otherwise) front a rest := by
  refine ⟨fun h => (ho.1 h).onFront_none hc, fun h => ?_⟩
  have h' := ho.2 h
  cases hts : front ++ rest with
  | nil =>
    rw [hts] at h'
    exact h'
  | cons t ts =>
    rw [hts] at hc h'
    rw [onFront, hc t rfl]
    exact h'

end ReadsWhen
end Parser

end Scriptlet
