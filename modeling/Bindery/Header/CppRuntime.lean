import Bindery.Header.Cpp
import Bindery.Header.CRuntime

/-!
The C++ header every other one includes: outcomes of fallible calls, and text sinks over strings.
-/

set_option autoImplicit false

namespace Bindery.CppRuntime

def file : Text := "weld_runtime.hpp"

def scope : Text := "weld_rt"

def okPayload : CppDecl :=
  .support
    ["/// Success payload of a `Result`.",
      "template <typename T> struct Ok \x7b",
      "    explicit Ok(T v) : value(std::move(v)) \x7b\x7d",
      "    T value;",
      "\x7d;"]

def errPayload : CppDecl :=
  .support
    ["/// Error payload of a `Result`.",
      "template <typename E> struct Err \x7b",
      "    explicit Err(E v) : value(std::move(v)) \x7b\x7d",
      "    E value;",
      "\x7d;"]

def result : CppDecl :=
  .support
    ["/// Outcome of a fallible call. Exactly one of `ok()` and `err()` is",
      "/// non-null.",
      "template <typename T, typename E> class Result \x7b",
      "public:",
      "    Result(Ok<T>&& ok) : value_(std::in_place_index<0>, std::move(ok.value)) \x7b\x7d",
      "    Result(Err<E>&& err) : value_(std::in_place_index<1>, std::move(err.value)) \x7b\x7d",
      "",
      "    bool is_ok() const \x7b",
      "        return value_.index() == 0;",
      "    \x7d",
      "    bool is_err() const \x7b",
      "        return value_.index() == 1;",
      "    \x7d",
      "",
      "    T* ok() \x7b",
      "        return std::get_if<0>(&value_);",
      "    \x7d",
      "    const T* ok() const \x7b",
      "        return std::get_if<0>(&value_);",
      "    \x7d",
      "    E* err() \x7b",
      "        return std::get_if<1>(&value_);",
      "    \x7d",
      "    const E* err() const \x7b",
      "        return std::get_if<1>(&value_);",
      "    \x7d",
      "",
      "private:",
      "    std::variant<T, E> value_;",
      "\x7d;"]

def stringSink : CppDecl :=
  .support
    ["/// Writeable that appends to `str`. The string is resized to its",
      "/// capacity while the native side writes; call `weld_writeable_flush`",
      "/// afterwards to trim it to the written length.",
      "inline ::WeldWriteable WriteToString(std::string& str) \x7b",
      "    ::WeldWriteable w\x7b\x7d;",
      "    w.context = &str;",
      "    w.len = str.size();",
      "    str.resize(str.capacity());",
      "    w.buf = str.data();",
      "    w.cap = str.size();",
      "    w.grow_failed = false;",
      "    w.flush = [](::WeldWriteable* self) \x7b",
      "        static_cast<std::string*>(self->context)->resize(self->len);",
      "    \x7d;",
      "    w.grow = [](::WeldWriteable* self, size_t requested) -> bool \x7b",
      "        auto* s = static_cast<std::string*>(self->context);",
      "        try \x7b",
      "            s->resize(std::max(requested, self->cap * 2));",
      "        \x7d catch (const std::bad_alloc&) \x7b",
      "            return false;",
      "        \x7d catch (const std::length_error&) \x7b",
      "            return false;",
      "        \x7d",
      "        self->buf = s->data();",
      "        self->cap = s->size();",
      "        return true;",
      "    \x7d;",
      "    return w;",
      "\x7d"]

def systemHeaders : List Text :=
  ["algorithm", "cstddef", "cstdint", "memory", "new", "optional", "span", "stdexcept", "string",
    "string_view", "utility", "variant", "vector"]

def header : CppHeader where
  file := file
  includes := [[.file CRuntime.file], systemHeaders.map Include.system]
  scope := .named scope
  decls := [okPayload, errPayload, result, stringSink]

end Bindery.CppRuntime
