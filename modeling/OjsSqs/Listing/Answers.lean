import Mathlib.Data.List.Perm.Subperm
import OjsSqs.Listing.Reads

/-! # The page of a read is an answer of its request

To a program the store leaves it open what is on a page, and the reads of whole
parts of the table compute it. Whatever the order of the table and wherever the
service stops, the page they compute is one of the store's answers. -/
namespace OjsSqs
open Calls

/-! ## The table of a store -/

theorem filterMap_ite {α β : Type} {p : α → Prop} [DecidablePred p] {f : α → β} (l : List α) :
    (l.filterMap fun x => if p x then some (f x) else none) = (l.filter p).map f := by
  rw [← List.filterMap_eq_map', List.filterMap_filter]
  simp only [decide_eq_true_eq]

namespace Store
variable (s : Store)

/-- What the table holds; these reads tell no other items apart. -/
def items : List TableItem :=
  s.jobs.entries.map (fun e => .job e.2) ++ s.queues.entries.map (fun e => .queue e.2) ++
    s.crons.entries.map (fun e => .cron e.2) ++
    s.workflowJobs.map (fun e => .workflowJob e.1 e.2) ++
    s.workflowResults.entries.map (fun e => .workflowResult e.1.1 e.1.2 e.2) ++
    (s.due .scheduled).entries.map (fun e => .due .scheduled e.1 e.2) ++
    (s.due .retry).entries.map (fun e => .due .retry e.1 e.2) ++
    List.replicate (s.uniqueKeys.entries.length + s.workflows.entries.length +
      s.deadLetters.entries.length + s.cronLocks.entries.length +
      s.cronInstances.entries.length) .other

/-- The markers that are due, with their instants. -/
def dueMarkers (index : DueIndex) (nowMs : Int) : List (String × Int) :=
  ((s.due index).entries.filter fun e => e.2 ≤ nowMs).map fun e => (e.1, e.2)

theorem items_crons : s.items.filterMap TableItem.cron? = s.crons.entries.map (·.2) := by
  simp [items, List.filterMap_append, List.filterMap_map, Function.comp_def, TableItem.cron?]

theorem items_workflowJobs (workflowID : String) :
    s.items.filterMap (TableItem.workflowJob? workflowID) = s.jobsOf workflowID := by
  rw [jobsOf, ← filterMap_ite]
  simp [items, List.filterMap_append, List.filterMap_map, Function.comp_def,
    TableItem.workflowJob?]

theorem items_workflowResults (workflowID : String) :
    s.items.filterMap (TableItem.workflowResult? workflowID) = s.resultsOf workflowID := by
  simp [items, List.filterMap_append, List.filterMap_map, Function.comp_def,
    TableItem.workflowResult?, resultsOf]

theorem items_due (index : DueIndex) (nowMs : Int) :
    s.items.filterMap (TableItem.due? index nowMs) = s.dueMarkers index nowMs := by
  rw [dueMarkers, ← filterMap_ite]
  cases index <;>
    simp [items, List.filterMap_append, List.filterMap_map, Function.comp_def,
      TableItem.due?]

variable {s} {index : DueIndex} {nowMs : Int} {id : String} {at' : Int}

theorem mem_dueMarkers :
    (id, at') ∈ s.dueMarkers index nowMs ↔ (s.due index).lookup id = some at' ∧ at' ≤ nowMs := by
  rw [dueMarkers, List.mem_map]
  constructor
  · rintro ⟨e, he, heq⟩
    obtain ⟨hmem, hle⟩ := List.mem_filter.mp he
    cases heq
    exact ⟨AList.mem_lookup_iff.mpr hmem, of_decide_eq_true hle⟩
  · rintro ⟨hlookup, hle⟩
    exact ⟨⟨id, at'⟩, List.mem_filter.mpr ⟨AList.mem_lookup_iff.mp hlookup, decide_eq_true hle⟩, rfl⟩

theorem nodup_dueMarkers : ((s.dueMarkers index nowMs).map (·.1)).Nodup := by
  rw [dueMarkers, List.map_map]
  exact ((List.filter_sublist).map Sigma.fst).nodup (s.due index).keys_nodup

/-- A marker that is due is among them, with the instant of its job. -/
theorem isDue_iff : s.isDue index nowMs id = true ↔
    (id, s.dueAt index id) ∈ s.dueMarkers index nowMs := by
  rw [mem_dueMarkers, isDue, dueAt]
  cases (s.due index).lookup id <;> simp

theorem dueAt_of_mem (h : (id, at') ∈ s.dueMarkers index nowMs) : s.dueAt index id = at' := by
  rw [dueAt, (mem_dueMarkers.mp h).1, Option.getD_some]

end Store

/-! ## The answers -/

theorem exists_of_subperm_map {α β : Type} {f : α → β} {l : List β} {m : List α}
    (h : l.Subperm (m.map f)) : ∃ m' : List α, m'.Subperm m ∧ m'.map f = l := by
  obtain ⟨l', hperm, hsub⟩ := h
  obtain ⟨n, hn, rfl⟩ := List.sublist_map_iff.mp hsub
  have hsame : List.Forall₂ (fun b a => b = f a) (n.map f) n :=
    List.forall₂_map_left_iff.mpr (List.forall₂_same.mpr fun _ _ => rfl)
  obtain ⟨m', hl, hm'⟩ := List.perm_comp_forall₂ hperm.symm hsame
  refine ⟨m', ⟨n, hm'.symm, hn⟩, ?_⟩
  exact (List.forall₂_eq_eq_eq ▸ List.forall₂_map_right_iff.mpr hl : l = m'.map f).symm

theorem nodup_of_subperm {α : Type} {l m : List α} (h : l.Subperm m) (hm : m.Nodup) : l.Nodup := by
  obtain ⟨l', hperm, hsub⟩ := h
  exact hperm.nodup_iff.mp (hsub.nodup hm)

theorem map_subperm_map {α β : Type} (f : α → β) {l m : List α} (h : l.Subperm m) :
    (l.map f).Subperm (m.map f) := by
  obtain ⟨l', hperm, hsub⟩ := h
  exact ⟨l'.map f, hperm.map f, hsub.map f⟩

/-- Some of the items, in any order, stand at some places. -/
theorem exists_places {α : Type} {l items : List α} (h : l.Subperm items) :
    ∃ places : List Nat, places.Nodup ∧ Store.itemsAt places items = l := by
  rw [← List.map_get_finRange items] at h
  obtain ⟨places, hsub, rfl⟩ := exists_of_subperm_map h
  have hnodup := nodup_of_subperm hsub (List.nodup_finRange _)
  refine ⟨places.map Fin.val, hnodup.map Fin.val_injective, ?_⟩
  rw [Store.itemsAt, List.filterMap_map, ← List.filterMap_eq_map']
  exact congrArg (List.filterMap · places) (funext fun i => List.getElem?_eq_getElem i.isLt)

section
variable {s s' : Split} {store : Store} {table : List TableItem}

theorem getWorkflowJobs_answers (h : table.Perm store.items) (workflowID : String) :
    ∃ places, store.act (.firstPage places) (.queryWorkflowJobs workflowID) =
      some (.ok (Paged.getWorkflowJobs s workflowID table), store) := by
  have hitems : (workflowJobItems workflowID table).Perm (store.jobsOf workflowID) :=
    (List.perm_insertionSort _ _).trans
      (store.items_workflowJobs workflowID ▸ h.filterMap _)
  obtain ⟨places, hnodup, hplaces⟩ :=
    exists_places ((List.take_sublist _ _).subperm.trans hitems.subperm)
  exact ⟨places, by rw [Store.act, if_pos hnodup, hplaces]; rfl⟩

theorem getWorkflowResults_answers (h : table.Perm store.items) (workflowID : String) :
    ∃ places, store.act (.firstPage places) (.queryWorkflowResults workflowID) =
      some (.ok (Paged.getWorkflowResults s workflowID table), store) := by
  have hitems : (workflowResultItems workflowID table).Perm (store.resultsOf workflowID) :=
    (List.perm_insertionSort _ _).trans
      (store.items_workflowResults workflowID ▸ h.filterMap _)
  obtain ⟨places, hnodup, hplaces⟩ :=
    exists_places ((List.take_sublist _ _).subperm.trans hitems.subperm)
  exact ⟨places, by rw [Store.act, if_pos hnodup, hplaces]; rfl⟩

theorem listCrons_answers (h : table.Perm store.items) :
    ∃ names, store.act (.page names) .scanCrons =
      some (.ok (Paged.listCrons s table), store) := by
  have hitems : (Paged.listCrons s table).Subperm (store.crons.entries.map (·.2)) :=
    ((List.take_sublist _ _).filterMap _).subperm.trans
      (store.items_crons ▸ h.filterMap _).subperm
  obtain ⟨es, hes, hpage⟩ := exists_of_subperm_map hitems
  have hlookup : ∀ e ∈ es, store.crons.lookup e.1 = some e.2 := fun e he =>
    AList.mem_lookup_iff.mpr (hes.subset he)
  have hnodup : (es.map (·.1)).Nodup :=
    nodup_of_subperm (map_subperm_map _ hes) store.crons.keys_nodup
  have hcron : store.isCronPage (es.map (·.1)) = true := by
    refine (Bool.and_eq_true _ _).mpr
      ⟨decide_eq_true hnodup, List.all_eq_true.mpr fun name hname => ?_⟩
    obtain ⟨e, he, rfl⟩ := List.mem_map.mp hname
    rw [hlookup e he]
    rfl
  have hrecords : (es.map (·.1)).filterMap store.crons.lookup = es.map (·.2) := by
    rw [List.filterMap_map, ← List.filterMap_eq_map']
    exact List.filterMap_congr hlookup
  exact ⟨es.map (·.1), by rw [Store.act, if_pos hcron, hrecords, hpage]⟩

/-- A page of due markers has due jobs, each once. -/
theorem isDuePage_of_subperm {index : DueIndex} {nowMs : Int} {markers : List (String × Int)}
    (h : markers.Subperm (store.dueMarkers index nowMs)) :
    store.isDuePage index nowMs (markers.map (·.1)) = true := by
  refine (Bool.and_eq_true _ _).mpr ⟨decide_eq_true ?_, List.all_eq_true.mpr fun id hid => ?_⟩
  · exact nodup_of_subperm (map_subperm_map _ h) Store.nodup_dueMarkers
  · obtain ⟨e, he, rfl⟩ := List.mem_map.mp hid
    have hmem : (e.1, e.2) ∈ store.dueMarkers index nowMs := h.subset he
    exact Store.isDue_iff.mpr (Store.dueAt_of_mem hmem ▸ hmem)

theorem scanDueJobs_answers (h : table.Perm store.items) (index : DueIndex) (nowMs : Int) :
    store.act (.page (Paged.getDueJobs s s' false index nowMs table)) (.scanDue index nowMs) =
      some (.ok (Paged.getDueJobs s s' false index nowMs table), store) := by
  have hpage : Paged.getDueJobs s s' false index nowMs table =
      ((s'.first none table).filterMap (TableItem.due? index nowMs)).map (·.1) :=
    List.map_filterMap.symm
  have hsub : ((s'.first none table).filterMap (TableItem.due? index nowMs)).Subperm
      (store.dueMarkers index nowMs) :=
    ((List.take_sublist _ _).filterMap _).subperm.trans
      (store.items_due index nowMs ▸ h.filterMap _).subperm
  rw [Store.act, hpage, if_pos (isDuePage_of_subperm hsub)]

theorem queryDueJobs_answers (h : table.Perm store.items) (index : DueIndex) (nowMs : Int) :
    store.act (.page (Paged.getDueJobs s s' true index nowMs table)) (.queryDue index nowMs) =
      some (.ok (Paged.getDueJobs s s' true index nowMs table), store) := by
  have hall : (gsi3 index nowMs table).Perm (store.dueMarkers index nowMs) :=
    (List.perm_insertionSort _ _).trans (store.items_due index nowMs ▸ h.filterMap _)
  have hsorted : (gsi3 index nowMs table).Pairwise fun m m' => m.2 ≤ m'.2 :=
    List.pairwise_insertionSort _ _
  have hpage : Paged.getDueJobs s s' true index nowMs table =
      ((gsi3 index nowMs table).take (s.stop none (gsi3 index nowMs table) 0)).map (·.1) := rfl
  rw [hpage]
  -- the page and what is beyond it
  generalize s.stop none (gsi3 index nowMs table) 0 = n
  rw [← List.take_append_drop n (gsi3 index nowMs table)] at hall hsorted
  generalize (gsi3 index nowMs table).take n = page at hall hsorted
  generalize (gsi3 index nowMs table).drop n = rest at hall hsorted
  obtain ⟨hpairs, -, hrest⟩ := List.pairwise_append.mp hsorted
  have hat : ∀ m ∈ page ++ rest, store.dueAt index m.1 = m.2 := fun m hm =>
    Store.dueAt_of_mem (hall.subset hm)
  have hdue := isDuePage_of_subperm ((List.sublist_append_left page rest).subperm.trans hall.subperm)
  have horder : store.inDueOrder index nowMs (page.map (·.1)) = true := by
    refine (Bool.and_eq_true _ _).mpr ⟨decide_eq_true ?_, List.all_eq_true.mpr fun id _ => ?_⟩
    · refine List.pairwise_map.mpr (hpairs.imp_of_mem fun ha hb hle => ?_)
      rw [hat _ (List.mem_append_left _ ha), hat _ (List.mem_append_left _ hb)]
      exact hle
    · cases hid : store.isDue index nowMs id with
      | false => rfl
      | true =>
        rcases List.mem_append.mp (hall.symm.subset (Store.isDue_iff.mp hid)) with hmem | hmem
        · simp [List.mem_map.mpr ⟨_, hmem, rfl⟩]
        · have hlate : ∀ a ∈ page.map (·.1), store.dueAt index a ≤ store.dueAt index id := by
            intro a ha
            obtain ⟨m, hm, rfl⟩ := List.mem_map.mp ha
            rw [hat m (List.mem_append_left _ hm)]
            exact hrest m hm _ hmem
          exact (Bool.or_eq_true _ _).mpr
            (.inr (List.all_eq_true.mpr fun a ha => decide_eq_true (hlate a ha)))
  rw [Store.act, hdue, horder]
  rfl

end

end OjsSqs
