import Mathlib.Data.List.Basic

/-! Rings of elements that are read from a head, with a place in them. -/

namespace Myctk.Lib

open List

structure Chain (α : Type) where
  before : List α
  current : α
  after : List α

namespace Chain

variable {α : Type} (c : Chain α)

def single (x : α) : Chain α := ⟨[], x, []⟩

def toList : List α := c.before.reverse ++ c.current :: c.after

def isChained : Bool := !(c.before.isEmpty && c.after.isEmpty)

def set (x : α) : Chain α := { c with current := x }

def rewind : Chain α :=
  match c.before.reverse with
  | [] => c
  | x :: xs => ⟨[], x, xs ++ c.current :: c.after⟩

def unwind : Chain α :=
  match c.after.reverse with
  | [] => c
  | x :: xs => ⟨xs ++ c.current :: c.before, x, []⟩

def next : Chain α :=
  match c.after with
  | [] => c.rewind
  | x :: xs => ⟨c.current :: c.before, x, xs⟩

def prev : Chain α :=
  match c.before with
  | [] => c.unwind
  | x :: xs => ⟨xs, x, c.current :: c.after⟩

def insertBefore (x : α) : Chain α :=
  match c.before with
  | [] => { c with after := c.after ++ [x] }
  | _ :: _ => { c with before := x :: c.before }

def unlink : Option (Chain α) :=
  match c.before with
  | [] => none
  | x :: xs => some ⟨xs, x, c.after⟩

@[simp] lemma toList_rewind : c.rewind.toList = c.toList := by
  rw [rewind]
  cases reversed : c.before.reverse with
  | nil => rfl
  | cons x xs => rw [toList, toList, reversed]; rfl

@[simp] lemma toList_next : c.next.toList = c.toList := by
  rw [next]
  split
  · exact c.toList_rewind
  · rename_i x xs after
    rw [toList, toList, after, reverse_cons, append_assoc]
    rfl

lemma mem_insertBefore {c : Chain α} {x y : α} : y ∈ (c.insertBefore x).toList ↔ y = x ∨ y ∈ c.toList := by
  obtain ⟨before, current, after⟩ := c
  cases before with
  | nil =>
    simp only [insertBefore, toList, reverse_nil, nil_append, mem_cons, mem_append, not_mem_nil]
    tauto
  | cons z before =>
    simp only [insertBefore, toList, reverse_cons, mem_append, mem_cons, not_mem_nil]
    tauto

lemma mem_set {c : Chain α} {x y : α} (member : y ∈ (c.set x).toList) : y = x ∨ y ∈ c.toList := by
  rcases mem_append.mp member with before | after
  · exact .inr (mem_append_left _ before)
  · exact (mem_cons.mp after).imp_right fun after => mem_append_right _ (mem_cons_of_mem _ after)

lemma isChained_next (chained : c.isChained = true) : c.next.isChained = true := by
  obtain ⟨before, current, after⟩ := c
  cases after with
  | cons x xs => rfl
  | nil =>
    rw [next, rewind]
    cases reversed : before.reverse with
    | nil => exact chained
    | cons x xs => simp [isChained]

end Chain

end Myctk.Lib
