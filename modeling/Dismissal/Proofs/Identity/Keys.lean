import Dismissal.Identity
import Mathlib.Data.List.Basic

/-!
# Keys stand for one item each

The separator of a key is no identity character. So a key of valid identities is the key of those
identities only, whatever texts another key is made of.

* `key_eq_key_iff`: no other texts have the key of a valid user and item.
-/

namespace Dismissal.Identity

variable {user id : String}

theorem not_mem_of_valid {value : String} (h : Valid value) : ':' ∉ value.toList := by
  intro hmem
  have := List.all_eq_true.1 h.2.2 ':' hmem
  exact absurd this (by decide)

theorem toList_key (user id : String) : (key user id).toList = user.toList ++ ':' :: id.toList := by
  simp [key]

/-- **Keys cannot be forged.** The texts of the second key need not be identities. -/
theorem key_eq_key_iff (huser : Valid user) (hid : Valid id) {x y : String} :
    key user id = key x y ↔ user = x ∧ id = y := by
  constructor
  · intro h
    have hlists : user.toList ++ ':' :: id.toList = x.toList ++ ':' :: y.toList := by
      rw [← toList_key, ← toList_key, h]
    have hparts := (List.append_cons_inj_of_notMem (not_mem_of_valid huser)
      (not_mem_of_valid hid)).1 hlists
    exact ⟨String.toList_inj.1 hparts.1, String.toList_inj.1 hparts.2.2⟩
  · rintro ⟨rfl, rfl⟩
    rfl

end Dismissal.Identity
