namespace VnScript.Cpp

def textOf (lines : List String) : String := String.join (lines.map (· ++ "\n"))

def headersLines : List String :=
  ["#include <cctype>",
    "#include <cstddef>",
    "#include <iostream>",
    "#include <memory>",
    "#include <sstream>",
    "#include <stdexcept>",
    "#include <string>",
    "#include <variant>",
    ""]

/-- Errors carry the name by which a handler catches them. Those of the C++
library count as `CError`. -/
def errorsLines : List String :=
  ["struct vn_error : std::runtime_error \x7b",
    "    std::string kind;",
    "",
    "    vn_error(const std::string& kind, const std::string& message)",
    "        : std::runtime_error(message), kind(kind) \x7b\x7d",
    "\x7d;",
    "",
    "inline bool vn_error_is(const std::exception& error, const std::string& kind) \x7b",
    "    if (kind == \"Error\") \x7b",
    "        return true;",
    "    \x7d",
    "    if (const auto* raised = dynamic_cast<const vn_error*>(&error)) \x7b",
    "        return raised->kind == kind;",
    "    \x7d",
    "    return kind == \"CError\";",
    "\x7d",
    ""]

def valueTypeLines : List String :=
  ["using vn_value = std::variant<int, double, char, bool, std::string>;",
    "",
    "std::ostream& operator<<(std::ostream& os, const vn_value& value) \x7b",
    "    std::visit([&os](const auto& inner) \x7b os << inner; \x7d, value);",
    "    return os;",
    "\x7d",
    ""]

def rangeLines : List String :=
  ["struct vn_range \x7b",
    "    int start;",
    "    int stop;",
    "    int step;",
    "",
    "    struct iterator \x7b",
    "        int current;",
    "        int step;",
    "        int operator*() const \x7b return current; \x7d",
    "        iterator& operator++() \x7b",
    "            current += step;",
    "            return *this;",
    "        \x7d",
    "        bool operator!=(const iterator& other) const \x7b",
    "            return step > 0 ? current < other.current : current > other.current;",
    "        \x7d",
    "    \x7d;",
    "",
    "    iterator begin() const \x7b return \x7bstart, step\x7d; \x7d",
    "    iterator end() const \x7b return \x7bstop, step\x7d; \x7d",
    "\x7d;",
    "",
    "inline vn_range range(int start, int stop, int step) \x7b",
    "    if (step == 0) \x7b",
    "        throw vn_error(\"ValueError\", \"Range step must not be zero\");",
    "    \x7d",
    "    return \x7bstart, stop, step\x7d;",
    "\x7d",
    "inline vn_range range(int start, int stop) \x7b return range(start, stop, 1); \x7d",
    "inline vn_range range(int stop) \x7b return range(0, stop, 1); \x7d",
    ""]

def conversionsLines : List String :=
  ["inline int vn_to_int(int value) \x7b return value; \x7d",
    "inline int vn_to_int(char value) \x7b return static_cast<int>(value); \x7d",
    "inline int vn_to_int(bool value) \x7b return value ? 1 : 0; \x7d",
    "inline int vn_to_int(double value) \x7b return static_cast<int>(value); \x7d",
    "inline int vn_to_int(const std::string& value) \x7b",
    "    const auto invalid = [&value]() \x7b",
    "        return vn_error(\"ValueError\", \"Cannot convert \" + value + \" to int\");",
    "    \x7d;",
    "    std::size_t consumed = 0;",
    "    int result = 0;",
    "    try \x7b",
    "        result = std::stoi(value, &consumed);",
    "    \x7d catch (const std::logic_error&) \x7b",
    "        throw invalid();",
    "    \x7d",
    "    while (consumed < value.size() && std::isspace(static_cast<unsigned char>(value[consumed]))) \x7b",
    "        ++consumed;",
    "    \x7d",
    "    if (consumed != value.size()) \x7b",
    "        throw invalid();",
    "    \x7d",
    "    return result;",
    "\x7d",
    "",
    "inline std::string vn_to_string(int value) \x7b return std::to_string(value); \x7d",
    "inline std::string vn_to_string(char value) \x7b return std::string(1, value); \x7d",
    "inline std::string vn_to_string(bool value) \x7b return value ? \"true\" : \"false\"; \x7d",
    "inline std::string vn_to_string(double value) \x7b",
    "    std::ostringstream out;",
    "    out << value;",
    "    return out.str();",
    "\x7d",
    "inline std::string vn_to_string(const std::string& value) \x7b return value; \x7d",
    "inline std::string vn_to_string(const vn_value& value) \x7b",
    "    std::ostringstream out;",
    "    out << std::boolalpha << value;",
    "    return out.str();",
    "\x7d",
    "",
    "inline char vn_to_char(char value) \x7b return value; \x7d",
    "inline char vn_to_char(int value) \x7b return static_cast<char>(value); \x7d",
    "inline char vn_to_char(const std::string& value) \x7b",
    "    if (value.empty()) \x7b",
    "        throw vn_error(\"ValueError\", \"Cannot convert  to char\");",
    "    \x7d",
    "    return value[0];",
    "\x7d",
    ""]

def stringsLines : List String :=
  ["inline std::string vn_replace(std::string text, const std::string& from, const std::string& to) \x7b",
    "    if (from.empty()) \x7b",
    "        return text;",
    "    \x7d",
    "    std::size_t position = 0;",
    "    while ((position = text.find(from, position)) != std::string::npos) \x7b",
    "        text.replace(position, from.size(), to);",
    "        position += to.size();",
    "    \x7d",
    "    return text;",
    "\x7d",
    ""]

def prelude : String :=
  String.join ([headersLines, errorsLines, valueTypeLines, rangeLines, conversionsLines,
    stringsLines].map textOf)

end VnScript.Cpp
