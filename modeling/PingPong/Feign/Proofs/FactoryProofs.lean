import PingPong.Feign.Proofs.RegisterProofs
import Mathlib.Order.Monotone.Basic

/-!
# Proofs: repeated calls of `getObject`

`getObject` keeps the URL it has computed in the bean, so the next call starts from it: the scheme is there
already, and a class path with text is appended once more.
-/

namespace PingPong.Feign

open Trace TextTools

namespace OpenFeignClientFactoryBean

variable {bean : OpenFeignClientFactoryBean}

/-! ## One call -/

theorem scheme_baseUrl (bean : OpenFeignClientFactoryBean) :
    startsWith bean.baseUrl "http://" = true ∨ startsWith bean.baseUrl "https://" = true := by
  unfold baseUrl withScheme
  split
  · exact Or.inl (startsWith_append ..)
  · rename_i h
    by_cases hhttp : startsWith bean.url "http://" = true
    · exact Or.inl hhttp
    · refine Or.inr ?_
      simpa [hhttp] using h

/-- A class path without text is not appended. -/
theorem getObject_url_of_blank (hblank : isBlank (some bean.path) = true) :
    bean.getObject.1.url = bean.baseUrl := by
  rw [getObject_url]
  unfold OpenFeignClientProxy.joinPath
  rw [hblank]
  rfl

/-- A class path with text makes the URL longer. -/
theorem length_lt_getObject_url (hblank : isBlank (some bean.path) = false) :
    bean.url.toList.length < bean.getObject.1.url.toList.length := by
  have hpath : bean.path.toList ≠ [] := by
    intro hnil
    rw [isBlank, hnil] at hblank
    cases hblank
  have hpos : 0 < bean.path.toList.length := List.length_pos_iff.mpr hpath
  have hbase : bean.url.toList.length ≤ bean.baseUrl.toList.length := by
    unfold baseUrl withScheme
    split
    · rw [String.toList_append, List.length_append]
      omega
    · exact le_refl _
  have hjoin : bean.baseUrl.toList.length + bean.path.toList.length ≤
      bean.getObject.1.url.toList.length := by
    rw [getObject_url, joinPath_toList hblank]
    unfold join
    split
    · simp
    · simp
  omega

/-! ## Repeated calls -/

theorem after_succ (n : ℕ) (bean : OpenFeignClientFactoryBean) :
    bean.after (n + 1) = (bean.after n).getObject.2 :=
  Function.iterate_succ_apply' ..

theorem path_after (n : ℕ) (bean : OpenFeignClientFactoryBean) : (bean.after n).path = bean.path := by
  induction n with
  | zero => rfl
  | succ n ih =>
    rw [after_succ]
    exact ih

/-- With a class path that has text, every call gives a longer URL than the calls before it. -/
theorem strictMono_length_url (hblank : isBlank (some bean.path) = false) :
    StrictMono fun n => (bean.after n).getObject.1.url.toList.length := by
  refine strictMono_nat_of_lt_succ fun n => ?_
  have hpath : isBlank (some (bean.after (n + 1)).path) = false := by
    rw [path_after]
    exact hblank
  have hlt := length_lt_getObject_url hpath
  rw [after_succ] at hlt ⊢
  exact hlt

/-- Without one, the calls behind the first one change nothing. -/
theorem url_after_of_blank (hblank : isBlank (some bean.path) = true) (n : ℕ) :
    (bean.after n).getObject.1.url = bean.baseUrl := by
  induction n with
  | zero => exact getObject_url_of_blank hblank
  | succ n ih =>
    have hpath : isBlank (some (bean.after (n + 1)).path) = true := by
      rw [path_after]
      exact hblank
    have hurl : (bean.after (n + 1)).url = bean.baseUrl := by
      rw [after_succ]
      exact ih
    rw [getObject_url_of_blank hpath, baseUrl_of_scheme, hurl]
    rw [hurl]
    exact scheme_baseUrl bean

/-- `getObject` is repeatable if and only if the class path has no text. -/
theorem repeatable_iff (bean : OpenFeignClientFactoryBean) :
    bean.Repeatable ↔ isBlank (some bean.path) = true := by
  constructor
  · intro h
    by_contra hblank
    have hlt := strictMono_length_url (by simpa using hblank) Nat.zero_lt_one
    dsimp only at hlt
    rw [h 1, h 0] at hlt
    exact absurd hlt (lt_irrefl _)
  · intro hblank n
    rw [url_after_of_blank hblank, getObject_url_of_blank hblank]

/-- The client of Pong: the second call appends its class path again. -/
theorem not_repeatable_pong :
    ¬ (⟨"pong", "http://localhost:8001", "/pong"⟩ : OpenFeignClientFactoryBean).Repeatable := by
  intro h
  have hsecond := h 1
  revert hsecond
  decide

end OpenFeignClientFactoryBean

end PingPong.Feign
