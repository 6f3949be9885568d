import Scriptlet.Proofs.LostSemicolon

/-!
# Readings with at most one complaint

A composed parser complains at most once when one of its parts does and the others read cleanly.
For items in a row it makes no difference whether the part that complains is read or skipped.
-/

namespace Scriptlet
namespace Parser
variable {α β : Type}

/-- The parser reads something from exactly the tokens of `front` when `rest` follows them, and
reports at most one complaint. -/
def ReadsWithOne (p : Parser α) (front rest : List Token) : Prop :=
  ∃ a cs, p.ReadsWith front a cs rest ∧ cs.length ≤ 1

section ReadsWithOne
variable {p : Parser α} {f : α → Parser β} {front back rest : List Token} {a : α}

lemma ReadsWithOne.andThen (hp : p.ReadsWithOne front (back ++ rest))
    (hf : ∀ a, ∃ b, (f a).Reads back b rest) : (p.andThen f).ReadsWithOne (front ++ back) rest := by
  obtain ⟨a, cs, hreads, hone⟩ := hp
  obtain ⟨b, hmore⟩ := hf a
  refine ⟨b, cs ++ [], hreads.andThen (reads_iff.mp hmore), ?_⟩
  rwa [List.append_nil]

lemma ReadsWithOne.map {g : α → β} (hp : p.ReadsWithOne front rest) :
    (p.andThen (fun a => succeed (g a))).ReadsWithOne front rest := by
  have h : (p.andThen (fun a => succeed (g a))).ReadsWithOne (front ++ []) rest :=
    ReadsWithOne.andThen hp (fun a => ⟨g a, reads_succeed.mpr ⟨rfl, rfl⟩⟩)
  rwa [List.append_nil] at h

lemma Reads.andThen_one (hp : p.Reads front a (back ++ rest))
    (hf : (f a).ReadsWithOne back rest) : (p.andThen f).ReadsWithOne (front ++ back) rest := by
  obtain ⟨b, cs, hreads, hone⟩ := hf
  exact ⟨b, [] ++ cs, (reads_iff.mp hp).andThen hreads, hone⟩

lemma ReadsWithOne.onFront_some {choose : Token → Option (Parser α)} {otherwise : Parser α}
    {t : Token} (hc : choose t = some p) (hp : p.ReadsWithOne front rest) :
    (onFront choose otherwise).ReadsWithOne (t :: front) rest := by
  obtain ⟨a, cs, hreads, hone⟩ := hp
  exact ⟨a, cs, hreads.onFront_some hc, hone⟩

end ReadsWithOne
end Parser

namespace Grammar
open Scriptlet.Parser

section recovering
variable {p : Parser Stmt} {front back rest ts : List Token} {stop : Token} {n : Nat}

lemma readsWith_recovering {s : Stmt} {cs : List Complaint} (h : p.ReadsWith front s cs rest) :
    (always (recovering p)).ReadsWith front (some s) cs rest := by
  unfold ReadsWith at h
  rw [readsWith_always, recovering]
  simp only [h]

lemma readsWithOne_recovering (h : p.ReadsWithOne front rest) :
    (always (recovering p)).ReadsWithOne front rest := by
  obtain ⟨s, cs, hreads, hone⟩ := h
  exact ⟨some s, cs, readsWith_recovering hreads, hone⟩

lemma recovering_of_stopsAfter (h : p.StopsAfter ts n) :
    ∃ c, recovering p ts = ⟨none, n + skipped (ts.drop n), [c]⟩ := by
  obtain ⟨fault, h⟩ := h
  unfold recovering
  simp only [h]
  exact ⟨_, rfl⟩

lemma readsWithOne_of_stopsAfter (h : p.StopsAfter ts ts.length) :
    (always (recovering p)).ReadsWithOne ts [] := by
  obtain ⟨c, hc⟩ := recovering_of_stopsAfter h
  refine ⟨none, [c], readsWith_always.mpr ?_, Nat.le_refl 1⟩
  rw [List.append_nil, hc, List.drop_length]
  rfl

lemma readsWithOne_of_readsOrStops (h : p.ReadsOrStops ts stop rest) :
    (always (recovering p)).ReadsWithOne (ts ++ [stop]) rest := by
  rcases h with ⟨a, hreads⟩ | ⟨left, right, rfl, hright, hstarts, hstops⟩
  · exact ⟨some a, [], readsWith_recovering (reads_iff.mp hreads), Nat.zero_le 1⟩
  · obtain ⟨c, hc⟩ := recovering_of_stopsAfter hstops
    refine ⟨none, [c], readsWith_always.mpr ?_, Nat.le_refl 1⟩
    rw [List.append_assoc left, List.drop_left, skipped_upTo hright hstarts,
      ← List.append_assoc left] at hc
    rw [List.append_assoc (left ++ right), List.singleton_append, hc]
    simp

variable {closes : Token → Bool}

lemma readsWith_items {o : Option Stmt} {body : List Stmt} {cs ds : List Complaint}
    (hgoes : ¬ Ends closes (front ++ (back ++ rest))) (hne : front ≠ [])
    (hitem : (always (recovering p)).ReadsWith front o cs (back ++ rest))
    (hitems : (always (items closes (recovering p))).ReadsWith back body ds rest) :
    (always (items closes (recovering p))).ReadsWith (front ++ back) (o.toList ++ body) (cs ++ ds)
      rest := by
  rw [readsWith_always] at *
  have hpos : 0 < (recovering p (front ++ (back ++ rest))).used := by
    rw [hitem]
    exact List.length_pos_iff.mpr hne
  rw [List.append_assoc, items_step hgoes hpos, hitem, List.drop_left, hitems, List.length_append]

lemma readsWithOne_items_left {body : List Stmt} (hgoes : ¬ Ends closes (front ++ (back ++ rest)))
    (hne : front ≠ []) (hitem : (always (recovering p)).ReadsWithOne front (back ++ rest))
    (hitems : (always (items closes (recovering p))).Reads back body rest) :
    (always (items closes (recovering p))).ReadsWithOne (front ++ back) rest := by
  obtain ⟨o, cs, hitem, hone⟩ := hitem
  refine ⟨_, _, readsWith_items hgoes hne hitem (reads_iff.mp hitems), ?_⟩
  rwa [List.append_nil]

lemma readsWithOne_items_right {s : Stmt} (hgoes : ¬ Ends closes (front ++ (back ++ rest)))
    (hne : front ≠ []) (hitem : p.Reads front s (back ++ rest))
    (hitems : (always (items closes (recovering p))).ReadsWithOne back rest) :
    (always (items closes (recovering p))).ReadsWithOne (front ++ back) rest := by
  obtain ⟨body, ds, hitems, hone⟩ := hitems
  exact ⟨_, _, readsWith_items hgoes hne (readsWith_recovering (reads_iff.mp hitem)) hitems, hone⟩

end recovering
section branches
variable {expr : Parser Expr} {branch : Parser Stmt} {c : Expr} {left first second ts rest : List Token}
  {e : Token}

lemma readsWithOne_ifThen
    (hc : (condition expr .expectedParenAfterIf .expectedParenAfterIfCondition).Reads left c
      (ts ++ rest))
    (h : branch.ReadsWithOne ts rest) (helse : ¬ Fronts (.keyword .kwElse) rest) :
    (ifRest expr branch).ReadsWithOne (left ++ ts) rest := by
  have hnone : (accept (.keyword .kwElse)).Reads [] none rest :=
    reads_accept.mpr (Or.inr ⟨rfl, rfl, helse⟩)
  rw [← List.append_nil ts] at hc ⊢
  rw [ifRest_eq]
  refine Reads.andThen_one hc (ReadsWithOne.andThen h (fun yes => ⟨.ifThen c yes, ?_⟩))
  exact hnone.andThen_nil (reads_succeed.mpr ⟨rfl, rfl⟩)

lemma readsWithOne_ifElse_left {no : Stmt}
    (hc : (condition expr .expectedParenAfterIf .expectedParenAfterIfCondition).Reads left c
      (first ++ e :: second ++ rest))
    (hyes : branch.ReadsWithOne first (e :: second ++ rest)) (he : e.kind = .keyword .kwElse)
    (hno : branch.Reads second no rest) :
    (ifRest expr branch).ReadsWithOne (left ++ (first ++ e :: second)) rest := by
  have hsome : (accept (.keyword .kwElse)).Reads [e] (some e) (second ++ rest) :=
    reads_accept.mpr (Or.inl ⟨e, rfl, rfl, he⟩)
  have helse (yes : Stmt) : ((accept (.keyword .kwElse)).andThen (elseRest branch c yes)).Reads
      ([e] ++ second) (.ifElse c yes no) rest :=
    hsome.andThen (hno.andThen_nil (reads_succeed.mpr ⟨rfl, rfl⟩))
  rw [ifRest_eq]
  exact Reads.andThen_one hc (ReadsWithOne.andThen hyes (fun yes => ⟨_, helse yes⟩))

lemma readsWithOne_ifElse_right {yes : Stmt}
    (hc : (condition expr .expectedParenAfterIf .expectedParenAfterIfCondition).Reads left c
      (first ++ e :: second ++ rest))
    (hyes : branch.Reads first yes (e :: second ++ rest)) (he : e.kind = .keyword .kwElse)
    (hno : branch.ReadsWithOne second rest) :
    (ifRest expr branch).ReadsWithOne (left ++ (first ++ e :: second)) rest := by
  have hsome : (accept (.keyword .kwElse)).Reads [e] (some e) (second ++ rest) :=
    reads_accept.mpr (Or.inl ⟨e, rfl, rfl, he⟩)
  have helse : ((accept (.keyword .kwElse)).andThen (elseRest branch c yes)).ReadsWithOne
      ([e] ++ second) rest := Reads.andThen_one hsome hno.map
  rw [ifRest_eq]
  exact Reads.andThen_one hc (Reads.andThen_one hyes helse)

lemma readsWithOne_whileDo
    (hc : (condition expr .expectedParenAfterWhile .expectedParenAfterWhileCondition).Reads left c
      (ts ++ rest))
    (h : branch.ReadsWithOne ts rest) :
    (whileRest expr branch).ReadsWithOne (left ++ ts) rest := by
  rw [whileRest_eq]
  exact Reads.andThen_one hc h.map

end branches

end Grammar
end Scriptlet
