import Mathlib.Data.List.Chain
import Mathlib.Data.List.Infix

/-!
# Messages of several parts

A message is a list of parts, and every part but the last one announces that more
parts follow. A stream of messages is the concatenation of their parts, and the
announcements are enough to find the boundaries again.

* `Framed` — the parts of one message;
* `exists_take_of_prefix` — a reader that stops after a last part has got whole messages;
* `Grouped` — parts from several sources, with every message from one of them;
* `Batches` — the same with the messages that they make up.
-/

namespace LibZmq.Core

open List

variable {α : Type*} {more : α → Bool}

/-- `msg` consists of parts with `more` and a last one without. -/
def Framed (more : α → Bool) (msg : List α) : Prop :=
  ∃ l m, msg = l ++ [m] ∧ (∀ p ∈ l, more p = true) ∧ more m = false

/-- A part of a message that ends without `more` is the whole message, or nothing. -/
theorem Framed.eq_of_prefix {msg l : List α} (h : Framed more msg) (hp : l <+: msg)
    (hl : ∀ m ∈ l.getLast?, more m = false) : l = [] ∨ l = msg := by
  obtain ⟨parts, m, rfl, hmore, -⟩ := h
  rcases prefix_concat_iff.mp hp with rfl | hparts
  · exact .inr rfl
  left
  cases hlast : l.getLast? with
  | none => exact getLast?_eq_none_iff.mp hlast
  | some p =>
    -- the last part of `l` is one of those that announce more
    have hmem := hparts.subset (mem_of_getLast? hlast)
    have hno := hl p hlast
    rw [hmore p hmem] at hno
    cases hno

/-- A reader that stops after a part without `more` has got whole messages. -/
theorem exists_take_of_prefix {msgs : List (List α)} (hf : ∀ msg ∈ msgs, Framed more msg)
    {l : List α} (hp : l <+: msgs.flatten) (hl : ∀ m ∈ l.getLast?, more m = false) :
    ∃ k, l = (msgs.take k).flatten := by
  induction msgs generalizing l with
  | nil => exact ⟨0, by simpa using hp⟩
  | cons msg msgs ih =>
    have hmsg := hf msg mem_cons_self
    rcases prefix_or_prefix_of_prefix hp (prefix_append msg _) with hshort | hlong
    · -- not more than the first message
      rcases hmsg.eq_of_prefix hshort hl with rfl | rfl
      · exact ⟨0, rfl⟩
      · exact ⟨1, by simp⟩
    obtain ⟨rest, rfl⟩ := hlong
    have hrest : rest <+: msgs.flatten := (prefix_append_right_inj msg).mp hp
    have hlast : ∀ m ∈ rest.getLast?, more m = false := by
      intro m hm
      apply hl m
      rw [getLast?_append, hm]
      rfl
    obtain ⟨k, rfl⟩ := ih (fun m hm => hf m (mem_cons_of_mem _ hm)) hrest hlast
    exact ⟨k + 1, by simp⟩

/-! ## Several sources -/

variable {κ : Type*} {l : List (κ × α)} {k : κ} {rest : List α} {m : α}

/-- The parts `l`, each with its source, are whole messages from one source each, and then
the first parts `rest` of another one from `k`. -/
def Grouped (more : α → Bool) (l : List (κ × α)) (k : κ) (rest : List α) : Prop :=
  ∃ msgs : List (κ × List α), (∀ msg ∈ msgs, Framed more msg.2) ∧ (∀ p ∈ rest, more p = true) ∧
    l = msgs.flatMap (fun msg => msg.2.map (Prod.mk msg.1)) ++ rest.map (Prod.mk k)

theorem grouped_nil (k : κ) : Grouped more [] k [] := ⟨[], nofun, nofun, rfl⟩

namespace Grouped

/-- Between two messages the source does not matter. -/
theorem retarget (h : Grouped more l k []) (k' : κ) : Grouped more l k' [] := h

section
variable (h : Grouped more l k rest)
include h

theorem concat_more (hm : more m = true) : Grouped more (l ++ [(k, m)]) k (rest ++ [m]) := by
  obtain ⟨msgs, hmsgs, hrest, rfl⟩ := h
  refine ⟨msgs, hmsgs, ?_, by simp⟩
  intro p hp
  rcases mem_append.mp hp with hp | hp
  · exact hrest p hp
  · rw [mem_singleton.mp hp, hm]

theorem concat_last (hm : more m = false) : Grouped more (l ++ [(k, m)]) k [] := by
  obtain ⟨msgs, hmsgs, hrest, rfl⟩ := h
  refine ⟨msgs ++ [(k, rest ++ [m])], ?_, nofun, by simp⟩
  intro msg hmsg
  rcases mem_append.mp hmsg with hmsg | hmsg
  · exact hmsgs msg hmsg
  · rw [mem_singleton.mp hmsg]
    exact ⟨rest, m, rfl, hrest, hm⟩

/-- In the middle of a message the last part has come from its source. -/
theorem getLast? (hne : rest ≠ []) : ∃ p, l.getLast? = some (k, p) ∧ more p = true := by
  obtain ⟨-, -, hrest, rfl⟩ := h
  obtain ⟨init, p, rfl⟩ := eq_nil_or_concat rest |>.resolve_left hne
  exact ⟨p, by simp, hrest p (by simp)⟩

/-- A part that is announced comes from the source of the one before. -/
theorem isChain : l.IsChain fun x y => more x.2 = true → y.1 = x.1 := by
  obtain ⟨msgs, hmsgs, -, rfl⟩ := h
  have hsame : ∀ (k : κ) (parts : List α),
      (parts.map (Prod.mk k)).IsChain fun x y => more x.2 = true → y.1 = x.1 := by
    intro k parts
    refine Pairwise.isChain (pairwise_map.mpr (pairwise_of_forall ?_))
    exact fun _ _ _ => rfl
  induction msgs with
  | nil => exact hsame k rest
  | cons msg _ ih =>
    rw [flatMap_cons, append_assoc]
    refine isChain_append.mpr ⟨hsame _ _, ih fun m hm => hmsgs m (.tail _ hm), ?_⟩
    -- the last part of a message announces nothing
    intro x hx y _ hmore
    obtain ⟨parts, m, hparts, -, hm⟩ := hmsgs msg (.head _)
    rw [hparts, map_append, map_singleton, getLast?_concat] at hx
    cases hx
    rw [hm] at hmore
    cases hmore

end

/-- Whether a message is complete can be seen from the last part. -/
theorem eq_nil (h : Grouped more l k []) {k' : κ} {rest' : List α} (h' : Grouped more l k' rest') :
    rest' = [] := by
  by_contra hne
  obtain ⟨p, hlast, hp⟩ := h'.getLast? hne
  obtain ⟨msgs, hmsgs, -, rfl⟩ := h
  rw [map_nil, append_nil] at hlast
  rcases eq_nil_or_concat msgs with rfl | ⟨init, msg, rfl⟩
  · cases hlast
  obtain ⟨parts, m, hparts, -, hm⟩ := hmsgs msg (by simp)
  rw [concat_eq_append, flatMap_append, flatMap_singleton, hparts, map_append,
    map_singleton, ← append_assoc, getLast?_concat] at hlast
  cases hlast
  rw [hm] at hp
  cases hp

end Grouped

/-- The parts `l` are the messages `msgs`, and then the first parts `rest` of another one. -/
structure Batches (more : α → Bool) (l : List (κ × α)) (msgs : List (κ × List α)) (k : κ)
    (rest : List α) : Prop where
  framed : ∀ msg ∈ msgs, Framed more msg.2
  begun : ∀ p ∈ rest, more p = true
  parts : l = msgs.flatMap (fun msg => msg.2.map (Prod.mk msg.1)) ++ rest.map (Prod.mk k)

namespace Batches

variable {msgs : List (κ × List α)} {q : κ} {tail : List (κ × α)}

theorem nil (k : κ) : Batches more [] [] k [] := ⟨nofun, nofun, rfl⟩

section
variable (h : Batches more l msgs k rest)
include h

theorem grouped : Grouped more l k rest :=
  ⟨msgs, h.framed, h.begun, h.parts⟩

/-- In the middle of a message the next part comes from the same source. -/
theorem source (hne : rest ≠ [])
    (hchain : (l ++ (q, m) :: tail).IsChain fun x y => more x.2 = true → y.1 = x.1) : q = k := by
  obtain ⟨p, hlast, hp⟩ := h.grouped.getLast? hne
  exact (isChain_append.mp hchain).2.2 (k, p) hlast (q, m) (by simp) hp

theorem concat_more (hq : rest ≠ [] → q = k) (hm : more m = true) :
    Batches more (l ++ [(q, m)]) msgs q (rest ++ [m]) := by
  refine ⟨h.framed, fun p hp => ?_, ?_⟩
  · rcases mem_append.mp hp with hp | hp
    · exact h.begun p hp
    · rw [mem_singleton.mp hp, hm]
  · rw [h.parts]
    by_cases hnil : rest = []
    · simp [hnil]
    · simp [hq hnil]

theorem concat_last (hq : rest ≠ [] → q = k) (hm : more m = false) :
    Batches more (l ++ [(q, m)]) (msgs ++ [(q, rest ++ [m])]) q [] := by
  refine ⟨fun msg hmsg => ?_, nofun, ?_⟩
  · rcases mem_append.mp hmsg with hmsg | hmsg
    · exact h.framed msg hmsg
    · rw [mem_singleton.mp hmsg]
      exact ⟨rest, m, rfl, h.begun, hm⟩
  · rw [h.parts]
    by_cases hnil : rest = []
    · simp [hnil]
    · simp [hq hnil]

theorem append (tail : List (κ × α))
    (hchain : (l ++ tail).IsChain fun x y => more x.2 = true → y.1 = x.1) :
    ∃ msgs' k' rest', Batches more (l ++ tail) (msgs ++ msgs') k' rest' := by
  induction tail generalizing l msgs k rest with
  | nil => exact ⟨[], k, rest, by simpa using h⟩
  | cons x _ ih =>
    obtain ⟨q, m⟩ := x
    have hq := fun hne => h.source hne hchain
    rw [← singleton_append, ← append_assoc] at hchain ⊢
    cases hm : more m with
    | true => exact ih (h.concat_more hq hm) hchain
    | false =>
      obtain ⟨msgs', k', rest', h'⟩ := ih (h.concat_last hq hm) hchain
      exact ⟨(q, rest ++ [m]) :: msgs', k', rest', by simpa using h'⟩

end
end Batches
end LibZmq.Core
